import Kiko.Lib.Transition
import Kiko.Transfer.Mux

/-!
# A transfer over many channels, both sides together

`send_files_mux` and `receive_files_mux` with all their threads: the loops, the scheduler's
producer and workers, the readers, and one FIFO channel of any capacity per index.

The conversation of `Mux` takes a payload in one step. Here it takes many, and while they
last the two sides can be far apart: the receiver may still be reading the answer when the
workers send, and the workers may still be busy when the receiver has gone on. `InTalk` says
which of four pictures a state shows:

* `quiet`: no payload is under way, what is on the channels is frames only;
* `busy`: a payload is under way. In front of it are frames the loop has still to read, behind
  it what was sent since, and between them scheduler, readers and channels are as in
  `PayloadInv`;
* `trailing`: the receiver has the payload, the scheduler has still to stop;
* `settled`: the receiver is over, or is so as soon as it has read what is in front.

The pictures are not states of the program but ways to read a state, and each step either
stays in its picture or goes over to the next one. A receiver that is over ends all of this,
whatever the sender still does, since all that can be said then is how the transfer ends; that
is `settled`. The conversation of `Mux`, in which a payload is one step, appears in every
picture as the hypothesis `htalk`: what is under way is put behind it or in front of it, and
so the whole transfer refines the conversation without a second proof about its entries.
-/

set_option autoImplicit false

namespace Kiko.Transfer.MuxTransfer

open FileTree Dialogue

/-- The two sides, and what is on its way. -/
structure System (env : ReceiveEnv) (m : Nat) where
  send : SendLoop env.prims (Act (m + 1))
  /-- the scheduler of the payload at the front of `todo` -/
  scheduler : Option (MuxSend (m + 1)) := none
  recv : MuxLoop (m + 1)
  down : Fin (m + 1) → List Frame := fun _ => []
  /-- what the receiver sends before it reads on -/
  reply : List Frame := []
  up : List Frame := []

inductive Label (n : Nat)
  /-- the sender's loop sends -/
  | send
  /-- the sender's loop sets up a scheduler -/
  | begin
  /-- a thread of the scheduler moves -/
  | sched (move : SendMove n)
  /-- `finish` returns to the sender's loop -/
  | finish
  /-- the receiver's loop, or a reader, takes a frame -/
  | take (k : Fin n)
  /-- a reader moves -/
  | work (move : RecvMove n)
  /-- `receive` returns to the receiver's loop -/
  | ret
  /-- the receiver sends -/
  | reply
  /-- the sender takes what it waits for -/
  | answer
  /-- the receiver finds that the sender has gone -/
  | closed
deriving DecidableEq, Repr

section Machine

variable {env : ReceiveEnv} {m : Nat} (codec : BlockCodec) (capDown : Fin (m + 1) → Option Nat)
  (capUp : Option Nat)

def init (m : Nat) (sources : List (Source env.prims)) (d : Disk) : System env m :=
  { send := (muxSend env.prims m).start sources, recv := { loop := { disk := d } } }

/-- The receiver is over: it has thrown, or it has returned and its ack is sent. -/
def System.received (s : System env m) : Bool := s.recv.pc.over && s.reply.isEmpty

/-- The sender is over. -/
def System.sent (s : System env m) : Bool := s.send.wait.over && s.send.todo.isEmpty

def step (s : System env m) : Label (m + 1) → Option (System env m)
  | .send =>
    match s.scheduler, s.send.todo with
    | none, .frame k f :: todo =>
      if hasRoom (capDown k) (s.down k) then
        some { s with send := { s.send with todo := todo }, down := push s.down (some (k, f)) }
      else none
    | _, _ => none
  | .begin =>
    match s.scheduler, s.send.todo with
    | none, .payload content offset _ :: _ =>
      some { s with scheduler := some (MuxSend.start (m + 1) content offset) }
    | _, _ => none
  | .sched move =>
    match s.scheduler, s.send.todo with
    | some sched, .payload _ _ useZstd :: _ =>
      if move.regular then
        (move.run codec useZstd sched).bind fun
          | (sched, none) => some { s with scheduler := some sched }
          | (sched, some (k, f)) =>
            if hasRoom (capDown k) (s.down k) then
              some { s with scheduler := some sched, down := push s.down (some (k, f)) }
            else none
      else none
    | _, _ => none
  | .finish =>
    match s.scheduler, s.send.todo with
    | some sched, _ :: todo =>
      if sched.pc = .finished then
        some { s with scheduler := none, send := { s.send with todo := todo } }
      else none
    | _, _ => none
  | .take k =>
    match s.down k with
    | [] => none
    | f :: rest =>
      if s.reply = [] then
        (s.recv.take env codec k f).map fun p =>
          { s with recv := p.1, reply := p.2, down := Function.update s.down k rest }
      else none
  | .work move =>
    if move.regular then (s.recv.work move).map fun recv => { s with recv := recv } else none
  | .ret => s.recv.ret.map fun recv => { s with recv := recv }
  | .reply =>
    match s.reply with
    | [] => none
    | f :: reply =>
      if hasRoom capUp s.up then some { s with reply := reply, up := s.up ++ [f] } else none
  | .answer =>
    match s.up with
    | [] => none
    | f :: up =>
      ((muxSend env.prims m).answer s.send f).map fun send => { s with send := send, up := up }
  | .closed =>
    if s.sent = true ∧ (∀ k, s.down k = []) ∧ s.reply = [] then
      s.recv.closed.map fun recv => { s with recv := recv }
    else none

end Machine

/-! ## Frames on their way -/

/-- What is sent on channel `k` is on it. -/
theorem push_eq {n : Nat} {chan : Fin n → List Frame} (tail : Fin n → List Frame) (acts : List (Act n)) (k : Fin n) (f : Frame)
    (h : ∀ j, chan j = tail j ++ onChannel j acts) (j : Fin n) :
    push chan (some (k, f)) j = tail j ++ onChannel j (acts ++ [.frame k f]) := by
  by_cases hj : j = k
  · subst hj
    simp [push, h, onChannel_cons_self]
  · have hne : k ≠ j := fun h => hj h.symm
    simp [push, h, Function.update_of_ne hj, onChannel_cons_of_ne hne]

/-! ## A receiver in step

Whether the receiver can take what comes depends on its place: a loop reads frames, and open
readers read their channels. `InStep` says that what is ahead fits the place, and follows from
the conversation (`talk_inStep`); it is what excludes that a reader takes a frame of the loop. -/

section InStep

variable {env : ReceiveEnv} {m : Nat} {codec : BlockCodec} {r : MuxLoop (m + 1)}
  {k : Fin (m + 1)} {f : Frame} {acts : List (Act (m + 1))}

/-- What is ahead of a receiver is something it can take in its place. -/
def InStep (env : ReceiveEnv) (r : MuxLoop (m + 1)) (acts : List (Act (m + 1))) : Prop :=
  (drain (MuxLoop.feed env) (some r) acts).1 ≠ none

theorem InStep.head {acts' : List (Act (m + 1))} (h : InStep env r (acts ++ acts')) :
    InStep env r acts := by
  intro hnone
  refine h ?_
  rw [drain_append, hnone]
  rw [MuxLoop.drain_none]

/-- The frame in front is one the loop reads. -/
theorem InStep.reads (h : InStep env r (.frame k f :: acts)) (hover : r.pc.over = false) :
    r.pc.reads = some k := by
  by_contra hne
  refine h ?_
  have hfeed : MuxLoop.feed env (some r) (.frame k f) = (none, []) := by
    simp [MuxLoop.feed, hover, hne]
  rw [drain_cons, hfeed]
  rw [MuxLoop.drain_none]

/-- A payload in front is the one the readers wait for. -/
theorem InStep.payload {content : Bytes} {offset : Nat} {useZstd : Bool}
    (h : InStep env r (.payload content offset useZstd :: acts)) (hover : r.pc.over = false) :
    ∃ s out recv, r.pc = .receiving s out recv ∧ PayloadFits s recv content offset useZstd := by
  have hne : r.payload content offset useZstd ≠ none := by
    intro hnone
    refine h ?_
    have hfeed : MuxLoop.feed env (some r) (.payload content offset useZstd) = (none, []) := by
      simp [MuxLoop.feed, hover, hnone]
    rw [drain_cons, hfeed]
    rw [MuxLoop.drain_none]
  unfold MuxLoop.payload at hne
  split at hne
  next s out recv hpc =>
    split_ifs at hne with hfits
    · exact ⟨s, out, recv, hpc, hfits⟩
    · exact absurd rfl hne
  next => exact absurd rfl hne

/-- A frame that the loop reads is taken by the loop. -/
theorem take_of_reads (env : ReceiveEnv) (codec : BlockCodec) (hreads : r.pc.reads = some k)
    (f : Frame) : r.take env codec k f = some (r.control env f) := by
  unfold MuxLoop.take
  split
  next s out recv hpc => simp [hpc, MuxPc.reads] at hreads
  next => rw [if_pos hreads]

/-- What is taken while frames are in front is the first of them. -/
theorem InStep.take (h : InStep env r (.frame k f :: acts)) {j : Fin (m + 1)} {g : Frame}
    {p : MuxLoop (m + 1) × List Frame} (htake : r.take env codec j g = some p) :
    j = k ∧ p = r.control env g ∧
      MuxLoop.feed env (some r) (.frame k g) = (some (r.control env g).1, (r.control env g).2) := by
  have hover : r.pc.over = false := by
    cases hpc : r.pc with
    | finished => simp [MuxLoop.take, hpc, MuxPc.reads] at htake
    | thrown e => simp [MuxLoop.take, hpc, MuxPc.reads] at htake
    | _ => rfl
  have hreads := h.reads hover
  unfold MuxLoop.take at htake
  split at htake
  next s out recv hpc => simp [hpc, MuxPc.reads] at hreads
  next =>
    split_ifs at htake with hj
    rw [hreads] at hj
    exact ⟨(Option.some.inj hj).symm, (Option.some.inj htake).symm, MuxLoop.feed_frame hreads g⟩

end InStep

/-! ## The invariant

Four pictures, each with what is on every channel. A channel is described from the front: what
the loop has still to read, what is left of the payload, what was sent since. -/

section Invariant

variable {env : ReceiveEnv} {m : Nat} {codec : BlockCodec} {capDown : Fin (m + 1) → Option Nat}
  {capUp : Option Nat} {final : Except (KikoError × Disk) Loop} {w : Wait env.prims}
  {r : MuxLoop (m + 1)} {ahead pre rest : List (Act (m + 1))} {answers : List Frame}

/-- The conversation, with a receiver that is in step. -/
abbrev TalkOf (final : Except (KikoError × Disk) Loop) (w : Wait env.prims) (r : MuxLoop (m + 1))
    (ahead : List (Act (m + 1))) (answers : List Frame) : Prop :=
  Talk (MuxLoop.feed env) (Expect env (muxReceiver env m) final) w (some r) ahead answers

/-- The receiver is over, and the transfer ends as it has. -/
def Settled (final : Except (KikoError × Disk) Loop) (r : MuxLoop (m + 1)) : Prop :=
  match r.pc with
  | .thrown e => final = .error (e, r.loop.disk)
  | .finished => final = .ok r.loop
  | _ => False

theorem Settled.over (h : Settled final r) : r.pc.over = true := by
  unfold Settled at h
  cases hpc : r.pc with
  | finished => rfl
  | thrown e => rfl
  | _ => simp [hpc] at h

theorem talk_inStep (h : TalkOf final w r ahead answers) : InStep env r ahead := by
  intro hnone
  have hexp := h.agree
  rw [hnone] at hexp
  exact (mux_follows env m).expect_ne_busy hexp rfl

theorem drain_over (hover : r.pc.over = true) (acts : List (Act (m + 1))) :
    drain (MuxLoop.feed env) (some r) acts = (some r, []) :=
  (drain_absorbed (fun a => by simp [MuxLoop.feed, hover]) acts).1

/-- A receiver that is over in the conversation is where the transfer ends. -/
theorem talk_settled (h : TalkOf final w r ahead answers) (hover : r.pc.over = true) :
    Settled final r := by
  have hexp := h.agree
  rw [drain_over hover] at hexp
  have hview := (mux_follows env m).expect_view hexp
  unfold Settled
  cases hpc : r.pc with
  | finished => simpa [muxReceiver, hpc] using hview
  | thrown e => simpa [muxReceiver, hpc] using hview
  | _ => simp [hpc, MuxPc.over] at hover

/-- What is in front of something else gets no reply. -/
theorem talk_silent (h : TalkOf final w r (pre ++ rest) answers) (hrest : rest ≠ []) :
    (drain (MuxLoop.feed env) (some r) pre).2 = [] := h.quiet.silent hrest

/-! ### A payload under way -/

/-- A payload, as the sender's loop has it to send. -/
def payloadAct (job : Job) : Act (m + 1) := .payload job.content job.offset job.useZstd

/-- The receiver with its readers at their start. -/
def atPayload (l : Loop) (s : PayloadSession) (out : Place) (job : Job) : MuxLoop (m + 1) where
  loop := l
  pc := .receiving s out (MuxRecv.start (m + 1) job.prior job.offset)

/-- The receiver with its payload. -/
def behindPayload (l : Loop) (s : PayloadSession) (out : Place) (job : Job) : MuxLoop (m + 1) where
  loop := l.put out job.target
  pc := .payloadEnd s job.content.length

/-- The session is about this payload. -/
structure Carries (m : Nat) (s : PayloadSession) (job : Job) : Prop where
  params : s.params = job.params
  fits : PayloadFits s (MuxRecv.start (m + 1) job.prior job.offset) job.content job.offset job.useZstd

theorem feed_payload {l : Loop} {s : PayloadSession} {out : Place} {job : Job}
    (h : Carries m s job) :
    MuxLoop.feed env (some (atPayload l s out job : MuxLoop (m + 1))) (payloadAct job) =
      (some (behindPayload l s out job), []) := by
  have hpayload : (atPayload l s out job : MuxLoop (m + 1)).payload job.content job.offset
      job.useZstd = some (behindPayload l s out job) := by
    simp only [MuxLoop.payload, atPayload, if_pos h.fits]
    rfl
  exact congrArg (·, []) hpayload

/-- A payload that fits is one job for both sides. -/
theorem exists_job {s : PayloadSession} {recv : MuxRecv (m + 1)} {content : Bytes} {offset : Nat}
    {useZstd : Bool} (h : PayloadFits s recv content offset useZstd) :
    ∃ job : Job, Carries m s job ∧ recv = MuxRecv.start (m + 1) job.prior job.offset ∧
      job.content = content ∧ job.offset = offset ∧ job.useZstd = useZstd := by
  let job : Job :=
    { relative := s.setup.relative
      content := content
      prior := recv.part
      useZstd := useZstd
      fits := h.fits
      resumes := h.prior ▸ h.resumes }
  have hoffset : job.offset = offset := h.prior
  have hstart : recv = MuxRecv.start (m + 1) job.prior job.offset := hoffset ▸ h.start
  refine ⟨job, ⟨?_, ?_⟩, hstart, rfl, hoffset, rfl⟩
  · simp only [PayloadSession.params, Job.params, h.size, h.resume, hoffset, h.zstd, job]
  · rw [hoffset]
    have := hoffset ▸ hstart
    rw [← this]
    exact h

/-- The picture a state shows. -/
inductive InTalk (codec : BlockCodec) (final : Except (KikoError × Disk) Loop) (s : System env m) :
    Prop
  /-- no payload is under way -/
  | quiet (flight : List (Act (m + 1))) (hsched : s.scheduler = none)
      (hframes : ∀ a ∈ flight, a.isFrame = true) (hone : payloads s.send.todo ≤ 1)
      (hdown : ∀ k, s.down k = onChannel k flight)
      (htalk : TalkOf final s.send.wait s.recv (flight ++ s.send.todo) (s.up ++ s.reply))
  /-- behind the frames of `pre` a payload is under way, and behind it the frames of `post` -/
  | busy (pre post rest : List (Act (m + 1))) (job : Job) (sched : MuxSend (m + 1))
      (pr : MuxRecv (m + 1)) (body : Fin (m + 1) → List Frame) (v : MuxLoop (m + 1)) (l : Loop)
      (session : PayloadSession) (out : Place)
      (hrun : (s.scheduler = some sched ∧ post = [] ∧ s.send.todo = payloadAct job :: rest) ∨
        (s.scheduler = none ∧ sched.pc = .finished ∧ s.send.todo = rest))
      (hpre : ∀ a ∈ pre, a.isFrame = true) (hpost : ∀ a ∈ post, a.isFrame = true)
      (hrest : payloads rest = 0)
      (hdown : ∀ k, s.down k = onChannel k pre ++ (body k ++ onChannel k post))
      (hpay : PayloadInv codec job sched pr body) (hserr : sched.error = none)
      (hrerr : pr.error = none) (hcarry : Carries m session job)
      (hat : drain (MuxLoop.feed env) (some v) pre = (some (atPayload l session out job), []))
      (hrecv : (s.recv = v ∧ pr = MuxRecv.start (m + 1) job.prior job.offset) ∨
        (pre = [] ∧ s.recv = (atPayload l session out job).wrote session out pr))
      (htalk : TalkOf final s.send.wait v (pre ++ payloadAct job :: (post ++ rest))
        (s.up ++ s.reply))
  /-- the receiver has the payload, the scheduler is still to stop -/
  | trailing (job : Job) (rest : List (Act (m + 1))) (sched : MuxSend (m + 1))
      (pr : MuxRecv (m + 1)) (hsched : s.scheduler = some sched)
      (htodo : s.send.todo = payloadAct job :: rest) (hrest : payloads rest = 0)
      (hne : rest ≠ []) (hdown : ∀ k, s.down k = [])
      (hpay : PayloadInv codec job sched pr fun _ => []) (hserr : sched.error = none)
      (hrerr : pr.error = none) (hdone : ∀ k, (pr.taps k).pc = .done)
      (htalk : TalkOf final s.send.wait s.recv rest (s.up ++ s.reply))
  /-- behind the frames of `pre` the receiver is over -/
  | settled (pre : List (Act (m + 1))) (tail : Fin (m + 1) → List Frame) (v : MuxLoop (m + 1))
      (hpre : ∀ a ∈ pre, a.isFrame = true)
      (hdown : ∀ k, s.down k = onChannel k pre ++ tail k)
      (hat : drain (MuxLoop.feed env) (some s.recv) pre = (some v, [])) (hover : Settled final v)
      (hup : s.up = []) (hreply : s.reply = [])

/-! ### Each step keeps the picture -/

variable {s s' : System env m}

theorem isFrame_append {f : Frame} {k : Fin (m + 1)} (h : ∀ a ∈ pre, a.isFrame = true) :
    ∀ a ∈ pre ++ [.frame k f], a.isFrame = true := by
  intro a ha
  rcases List.mem_append.mp ha with ha | ha
  · exact h a ha
  · rw [List.mem_singleton.mp ha]
    rfl

theorem init_talk (m : Nat) (sources : List (Source env.prims)) (d : Disk) :
    InTalk codec (conclusion env sources { disk := d }) (init m sources d) :=
  .quiet [] rfl (fun _ ha => by cases ha) (payloads_start sources) (fun _ => rfl)
    ((mux_follows env m).talk_start sources { disk := d })

theorem send_talk (h : InTalk codec final s) (hs : step codec capDown capUp s .send = some s') :
    InTalk codec final s' := by
  simp only [step] at hs
  split at hs
  next k f todo hnone htodo =>
    split_ifs at hs
    obtain rfl := Option.some.inj hs
    cases h with
    | quiet flight hsched hframes hone hdown htalk =>
      rw [htodo, payloads_cons] at hone
      refine .quiet (flight ++ [.frame k f]) hsched (isFrame_append hframes)
        (Nat.le_trans (Nat.le_add_right _ _) hone) ?_ ?_
      · exact push_eq (fun _ => []) flight k f hdown
      · rwa [htodo, List.append_cons] at htalk
    | busy pre post rest job sched pr body v l session out hrun hpre hpost hrest hdown hpay hserr
        hrerr hcarry hat hrecv htalk =>
      rcases hrun with ⟨-, -, htodo'⟩ | ⟨hsched, hfin, htodo'⟩
      · rw [htodo] at htodo'
        cases (List.cons.inj htodo').1
      · obtain rfl : .frame k f :: todo = rest := htodo ▸ htodo'
        rw [payloads_cons] at hrest
        refine .busy pre (post ++ [.frame k f]) todo job sched pr body v l session out
          (.inr ⟨hsched, hfin, rfl⟩) hpre (isFrame_append hpost) (by omega) (fun j => ?_) hpay
          hserr hrerr hcarry hat hrecv ?_
        · have hchan (j : Fin (m + 1)) :
              s.down j = (onChannel j pre ++ body j) ++ onChannel j post := by
            rw [hdown, List.append_assoc]
          have := push_eq (fun j => onChannel j pre ++ body j) post k f hchan j
          rw [List.append_assoc] at this
          exact this
        · rw [List.append_assoc]
          exact htalk
    | trailing job rest sched pr hsched htodo' =>
      rw [htodo] at htodo'
      cases (List.cons.inj htodo').1
    | settled pre tail v hpre hdown hat hover hup hreply =>
      refine .settled pre (push tail (some (k, f))) v hpre (fun j => ?_) hat hover hup hreply
      by_cases hj : j = k
      · subst hj
        simp [push, hdown]
      · simp [push, hdown, Function.update_of_ne hj]
  next => cases hs

theorem begin_talk (h : InTalk codec final s) (hs : step codec capDown capUp s .begin = some s') :
    InTalk codec final s' := by
  simp only [step] at hs
  split at hs
  next content offset useZstd rest hnone htodo =>
    obtain rfl := Option.some.inj hs
    cases h with
    | quiet flight hsched hframes hone hdown htalk =>
      rw [htodo] at htalk hone
      have hrest : payloads rest = 0 := by
        simp only [payloads_cons, Act.isFrame, Bool.false_eq_true, if_false] at hone
        omega
      -- where the receiver will be when it has read what is in front
      obtain ⟨v, hv⟩ := Option.ne_none_iff_exists'.mp (talk_inStep htalk).head
      have hat : drain (MuxLoop.feed env) (some s.recv) flight = (some v, []) :=
        Prod.ext hv (talk_silent htalk (List.cons_ne_nil _ _))
      have hnil : s.up ++ s.reply = [] := by
        by_contra hne
        simpa using htalk.turn hne
      have htalkv : TalkOf final s.send.wait v (.payload content offset useZstd :: rest) [] := by
        have hagree := htalk.agree
        have hquiet := htalk.quiet.tail
        rw [drain_append, hat, hnil] at hagree
        rw [hat] at hquiet
        exact ⟨hagree, hquiet, fun hne => absurd rfl hne⟩
      by_cases hover : v.pc.over = true
      · obtain ⟨hup, hreply⟩ := List.append_eq_nil_iff.mp hnil
        exact .settled flight (fun _ => []) v hframes (fun k => by simp [hdown]) hat
          (talk_settled htalkv hover) hup hreply
      · obtain ⟨session, out, recv, hpc, hfits⟩ :=
          (talk_inStep htalkv).payload (Bool.eq_false_iff.mpr hover)
        obtain ⟨job, hcarry, hstart, rfl, rfl, rfl⟩ := exists_job hfits
        have hvat : v = atPayload v.loop session out job := by
          rw [atPayload, ← hstart, ← hpc]
        rw [hvat] at hat
        refine .busy flight [] rest job _ _ (fun _ => []) s.recv v.loop session out
          (.inl ⟨rfl, rfl, htodo⟩) hframes (fun _ ha => by cases ha) hrest
          (fun k => by simp [hdown]) (payloadInv_start (m + 1) codec job) rfl rfl hcarry hat
          (.inl ⟨rfl, rfl⟩) ?_
        rw [List.nil_append]
        exact htalk
    | busy pre post rest' job sched pr body v l session out hrun hpre hpost hrest =>
      rcases hrun with ⟨hsched, -, -⟩ | ⟨-, -, htodo'⟩
      · rw [hnone] at hsched
        cases hsched
      · -- between two payloads there is a wait
        rw [← htodo', htodo] at hrest
        simp [Act.isFrame] at hrest
    | trailing job rest' sched pr hsched =>
      rw [hnone] at hsched
      cases hsched
    | settled pre tail v hpre hdown hat hover hup hreply =>
      exact .settled pre tail v hpre hdown hat hover hup hreply
  next => cases hs

theorem sched_talk {move : SendMove (m + 1)} (h : InTalk codec final s)
    (hs : step codec capDown capUp s (.sched move) = some s') : InTalk codec final s' := by
  simp only [step] at hs
  split at hs
  next sched content offset useZstd todo hsched htodo =>
    split_ifs at hs with hreg
    obtain ⟨⟨sched', out'⟩, hrun', hs⟩ := Option.bind_eq_some_iff.mp hs
    have hs' : s' = { s with scheduler := some sched', down := push s.down out' } := by
      cases out' with
      | none => exact (Option.some.inj hs).symm
      | some kf =>
        dsimp only at hs
        split_ifs at hs
        exact (Option.some.inj hs).symm
    subst hs'
    cases h with
    -- In a quiet picture there is no scheduler.
    | quiet flight hnone =>
      rw [hsched] at hnone
      cases hnone
    | busy pre post rest job sched₀ pr body v l session out hrun hpre hpost hrest hdown hpay hserr
        hrerr hcarry hat hrecv htalk =>
      rcases hrun with ⟨hsched', rfl, htodo'⟩ | ⟨hnone, -, -⟩
      · rw [hsched] at hsched'
        obtain rfl := Option.some.inj hsched'
        rw [htodo] at htodo'
        obtain ⟨hact, rfl⟩ := List.cons.inj htodo'
        obtain ⟨rfl, rfl, rfl⟩ := Act.payload.inj hact
        -- The payload is still under way: what the move has sent is behind what was there of
        -- it.
        refine .busy pre [] todo job sched' pr (push body out') v l session out
          (.inl ⟨rfl, rfl, htodo⟩) hpre hpost hrest (fun j => ?_) (hpay.sendMove hrun')
          (SendMove.run_error hreg hrun' hserr) hrerr hcarry hat hrecv htalk
        have hchan (j : Fin (m + 1)) : s.down j = onChannel j pre ++ body j := by
          rw [hdown, onChannel_nil, List.append_nil]
        rw [onChannel_nil, List.append_nil]
        cases out' with
        | none => exact hchan j
        | some kf =>
          by_cases hj : j = kf.1
          · subst hj
            simp [push, hchan]
          · simp [push, hchan, Function.update_of_ne hj]
      · rw [hsched] at hnone
        cases hnone
    | trailing job rest sched₀ pr hsched' htodo' hrest hne hdown hpay hserr hrerr hdone htalk =>
      rw [hsched] at hsched'
      obtain rfl := Option.some.inj hsched'
      obtain ⟨hact, -⟩ := List.cons.inj (htodo.symm.trans htodo')
      obtain ⟨rfl, rfl, rfl⟩ := Act.payload.inj hact
      have hpay' := hpay.sendMove hrun'
      -- every worker has sent its end mark, so nothing is sent
      obtain rfl : out' = none := by
        by_contra hne
        obtain ⟨⟨k, f⟩, rfl⟩ := Option.ne_none_iff_exists'.mp hne
        have hempty := ((hpay'.link k).done (hpay'.send.lane k) (hdone k)).2.2.1
        simp [push] at hempty
      exact .trailing job rest sched' pr rfl htodo' hrest hne hdown hpay'
        (SendMove.run_error hreg hrun' hserr) hrerr hdone htalk
    | settled pre tail v hpre hdown hat hover hup hreply =>
      refine .settled pre (push tail out') v hpre (fun j => ?_) hat hover hup hreply
      cases out' with
      | none => exact hdown j
      | some kf =>
        by_cases hj : j = kf.1
        · subst hj
          simp [push, hdown]
        · simp [push, hdown, Function.update_of_ne hj]
  next => cases hs

theorem finish_talk (h : InTalk codec final s)
    (hs : step codec capDown capUp s .finish = some s') : InTalk codec final s' := by
  simp only [step] at hs
  split at hs
  next sched a todo hsched htodo =>
    split_ifs at hs with hfin
    obtain rfl := Option.some.inj hs
    cases h with
    | quiet flight hnone =>
      rw [hsched] at hnone
      cases hnone
    | busy pre post rest job sched₀ pr body v l session out hrun hpre hpost hrest hdown hpay hserr
        hrerr hcarry hat hrecv htalk =>
      rcases hrun with ⟨hsched', rfl, htodo'⟩ | ⟨hnone, -, -⟩
      · rw [hsched] at hsched'
        obtain rfl := Option.some.inj hsched'
        obtain ⟨-, rfl⟩ := List.cons.inj (htodo.symm.trans htodo')
        exact .busy pre [] todo job sched pr body v l session out (.inr ⟨rfl, hfin, rfl⟩) hpre hpost
          hrest hdown hpay hserr hrerr hcarry hat hrecv htalk
      · rw [hsched] at hnone
        cases hnone
    | trailing job rest sched₀ pr hsched' htodo' hrest hne hdown hpay hserr hrerr hdone htalk =>
      obtain ⟨-, rfl⟩ := List.cons.inj (htodo.symm.trans htodo')
      exact .quiet [] rfl (fun _ ha => by cases ha) (by dsimp only; omega) hdown htalk
    | settled pre tail v hpre hdown hat hover hup hreply =>
      exact .settled pre tail v hpre hdown hat hover hup hreply
  next => cases hs

/-- A payload that the readers have open. -/
theorem open_eq {l : Loop} {session : PayloadSession} {out : Place} {job : Job}
    {pr : MuxRecv (m + 1)} {v : MuxLoop (m + 1)}
    (hat : drain (MuxLoop.feed env) (some v) [] = (some (atPayload l session out job), []))
    (hrecv : (r = v ∧ pr = MuxRecv.start (m + 1) job.prior job.offset) ∨
      (([] : List (Act (m + 1))) = [] ∧ r = (atPayload l session out job).wrote session out pr)) :
    r.pc = .receiving session out pr ∧ ∀ file, r.loop.put out file = l.put out file := by
  rcases hrecv with ⟨rfl, rfl⟩ | ⟨-, rfl⟩
  · obtain rfl := Option.some.inj (congrArg Prod.fst hat)
    exact ⟨rfl, fun _ => rfl⟩
  · exact ⟨rfl, fun file => Loop.put_put l out pr.part file⟩

/-- A reader that is still reading has frames of its payload to come. -/
theorem body_ne_nil {job : Job} {sched : MuxSend (m + 1)} {pr : MuxRecv (m + 1)}
    {body : Fin (m + 1) → List Frame} {post : List (Act (m + 1))} {k : Fin (m + 1)}
    (hpay : PayloadInv codec job sched pr body) (hfin : sched.pc = .finished ∨ post = [])
    (hreading : (pr.taps k).pc = .reading) (hne : body k ++ onChannel k post ≠ []) :
    body k ≠ [] := by
  intro hnil
  rw [hnil, List.nil_append] at hne
  rcases hfin with hfin | rfl
  · have hex := hpay.send.finished hfin k
    exact ((hpay.link k).exited (hpay.send.lane k) hex).2.2 (by simp [hreading]) hnil
  · exact hne rfl

/-- The frame in front is taken off its channel. -/
theorem take_front {chan : Fin (m + 1) → List Frame} (tail : Fin (m + 1) → List Frame) {k : Fin (m + 1)} {f g : Frame}
    {acts : List (Act (m + 1))} {left : List Frame}
    (hdown : ∀ j, chan j = onChannel j (.frame k g :: acts) ++ tail j) (hchan : chan k = f :: left) :
    f = g ∧ ∀ j, Function.update chan k left j = onChannel j acts ++ tail j := by
  have hk := hdown k
  rw [hchan, onChannel_cons_self, List.cons_append] at hk
  obtain ⟨rfl, rfl⟩ := List.cons.inj hk
  refine ⟨rfl, fun j => ?_⟩
  by_cases hj : j = k
  · subst hj
    rw [Function.update_self]
  · rw [Function.update_of_ne hj, hdown, onChannel_cons_of_ne (Ne.symm hj)]

theorem take_talk {k : Fin (m + 1)} (h : InTalk codec final s)
    (hs : step codec capDown capUp s (.take k) = some s') : InTalk codec final s' := by
  simp only [step] at hs
  split at hs
  next => cases hs
  next f chan hchan =>
    split_ifs at hs with hreply
    obtain ⟨p, htake, rfl⟩ := Option.map_eq_some_iff.mp hs
    cases h with
    | quiet flight hsched hframes hone hdown htalk =>
      cases flight with
      | nil => simp [hdown] at hchan
      | cons a flight =>
        obtain ⟨hframe, hframes'⟩ := List.forall_mem_cons.mp hframes
        cases a with
        | payload => cases hframe
        | frame k' g =>
          have hstep : InStep env s.recv (.frame k' g :: (flight ++ s.send.todo)) :=
            talk_inStep htalk
          obtain ⟨rfl, rfl, hfeed⟩ := hstep.take htake
          obtain ⟨rfl, hdown'⟩ := take_front (fun _ => [])
            (fun j => by rw [hdown, List.append_nil]) hchan
          have hup : s.up = [] := (List.append_eq_nil_iff.mp htalk.answers_eq).1
          refine .quiet flight hsched hframes' hone
            (fun j => (hdown' j).trans (List.append_nil _)) ?_
          rw [hup, List.nil_append]
          have := htalk.recv
          rwa [hfeed] at this
    | busy pre post rest job sched pr body v l session out hrun hpre hpost hrest hdown hpay hserr
        hrerr hcarry hat hrecv htalk =>
      cases pre with
      | nil =>
        -- a reader takes it
        obtain ⟨hpc, hput⟩ := open_eq hat hrecv
        have htake' : (pr.accept codec job.params k f).map
            (fun recv => (s.recv.wrote session out recv, ([] : List Frame))) = some p := by
          rw [← hcarry.params]
          simpa only [MuxLoop.take, hpc] using htake
        obtain ⟨pr', hacc, rfl⟩ := Option.map_eq_some_iff.mp htake'
        -- The reader of `k` has taken it, so it was reading, and what it took is of the
        -- payload.
        have hreading : (pr.taps k).pc = .reading := by
          by_contra hne
          simp [MuxRecv.accept, hne] at hacc
        have hk : body k ++ onChannel k post = f :: chan := by rw [← hchan, hdown]; rfl
        obtain ⟨g, body', hbody⟩ := List.exists_cons_of_ne_nil (body_ne_nil hpay
          (hrun.elim (fun h => .inr h.2.1) fun h => .inl h.2.1) hreading
          (by rw [hk]; exact List.cons_ne_nil _ _))
        rw [hbody, List.cons_append] at hk
        obtain ⟨rfl, rfl⟩ := List.cons.inj hk
        obtain ⟨r', hr', herr', hpay'⟩ := hpay.accept hbody hreading
        rw [hacc] at hr'
        obtain rfl := Option.some.inj hr'
        have hup : s.up ++ s.reply = [] := htalk.answers_eq
        refine .busy [] post rest job sched pr' (Function.update body k body') v l session out hrun
          hpre hpost hrest (fun j => ?_) hpay' hserr (herr'.trans hrerr) hcarry hat
          (.inr ⟨rfl, ?_⟩) ?_
        · by_cases hj : j = k
          · subst hj
            simp
          · simp [Function.update_of_ne hj, hdown]
        · simp only [MuxLoop.wrote, hput]
          rfl
        · rw [hup] at htalk
          rw [(List.append_eq_nil_iff.mp hup).1]
          exact htalk
      | cons a pre =>
        -- the loop takes it
        obtain ⟨hframe, hpre'⟩ := List.forall_mem_cons.mp hpre
        obtain ⟨rfl, hpr⟩ : s.recv = v ∧ pr = _ := hrecv.resolve_right fun h => by cases h.1
        cases a with
        | payload => cases hframe
        | frame k' g =>
          have hstep : InStep env s.recv
              (.frame k' g :: (pre ++ payloadAct job :: (post ++ rest))) := talk_inStep htalk
          obtain ⟨rfl, rfl, hfeed⟩ := hstep.take htake
          obtain ⟨rfl, hdown'⟩ := take_front (fun j => body j ++ onChannel j post) hdown hchan
          have hup : s.up = [] := (List.append_eq_nil_iff.mp htalk.answers_eq).1
          rw [drain_cons, hfeed] at hat
          obtain ⟨hat, hsilent⟩ := Prod.mk.inj hat
          obtain ⟨hnil, hsilent⟩ := List.append_eq_nil_iff.mp hsilent
          refine .busy pre post rest job sched pr body _ l session out hrun hpre' hpost hrest hdown'
            hpay hserr hrerr hcarry (Prod.ext hat hsilent) (.inl ⟨rfl, hpr⟩) ?_
          rw [hup, List.nil_append]
          have := htalk.recv
          rwa [hfeed] at this
    | trailing job rest sched pr hsched htodo hrest hne hdown =>
      rw [hdown] at hchan
      cases hchan
    | settled pre tail v hpre hdown hat hover hup hreply =>
      cases pre with
      | nil =>
        obtain rfl := Option.some.inj (congrArg Prod.fst hat)
        have hpc := hover.over
        unfold MuxLoop.take at htake
        split at htake
        next hpc' => simp [hpc', MuxPc.over] at hpc
        next =>
          split_ifs at htake with hreads
          cases hpc' : s.recv.pc with
          | finished => simp [hpc', MuxPc.reads] at hreads
          | thrown e => simp [hpc', MuxPc.reads] at hreads
          | _ => simp [hpc', MuxPc.over] at hpc
      | cons a pre =>
        obtain ⟨hframe, hpre'⟩ := List.forall_mem_cons.mp hpre
        cases a with
        | payload => cases hframe
        | frame k' g =>
          have hstep : InStep env s.recv (.frame k' g :: pre) := by
            rw [InStep, hat]
            simp
          obtain ⟨rfl, rfl, hfeed⟩ := hstep.take htake
          obtain ⟨rfl, hdown'⟩ := take_front tail hdown hchan
          rw [drain_cons, hfeed] at hat
          obtain ⟨hat, hsilent⟩ := Prod.mk.inj hat
          obtain ⟨hnil, hsilent⟩ := List.append_eq_nil_iff.mp hsilent
          exact .settled pre tail v hpre' hdown' (Prod.ext hat hsilent) hover hup hnil

/-- What a receiver with a payload open waits for is that payload. -/
theorem talk_receiving {session : PayloadSession} {out : Place} {recv : MuxRecv (m + 1)}
    (h : InStep env r ahead) (hahead : ahead ≠ []) (hpc : r.pc = .receiving session out recv) :
    ∃ content offset useZstd, ahead.head? = some (.payload content offset useZstd) ∧
      PayloadFits session recv content offset useZstd := by
  have hover : r.pc.over = false := by rw [hpc]; rfl
  obtain ⟨a, rest, rfl⟩ := List.exists_cons_of_ne_nil hahead
  cases a with
  | frame k f =>
    have := h.reads hover
    simp [hpc, MuxPc.reads] at this
  | payload content offset useZstd =>
    obtain ⟨session', out', recv', hpc', hfits⟩ := h.payload hover
    rw [hpc] at hpc'
    obtain ⟨rfl, rfl, rfl⟩ := MuxPc.receiving.inj hpc'
    exact ⟨content, offset, useZstd, rfl, hfits⟩

/-- A receiver with nothing ahead has no payload open. -/
theorem talk_ne_nil {session : PayloadSession} {out : Place} {recv : MuxRecv (m + 1)}
    (h : TalkOf final w r ahead answers) (hpc : r.pc = .receiving session out recv) :
    ahead ≠ [] := by
  rintro rfl
  have := (mux_follows env m).expect_ne_busy h.agree
  simp [muxReceiver, hpc] at this

/-- Readers at their start have nothing in hand and wait for a frame. -/
theorem receiving_quiet {session : PayloadSession} {out : Place} {recv : MuxRecv (m + 1)}
    (h : TalkOf final w r ahead answers) (hpc : r.pc = .receiving session out recv) (k : Fin (m + 1)) :
    (recv.taps k).pc = .reading := by
  obtain ⟨content, offset, useZstd, -, hfits⟩ :=
    talk_receiving (talk_inStep h) (talk_ne_nil h hpc) hpc
  rw [hfits.start]
  rfl

/-- Behind frames only there is no receiver with a payload open that comes to be over. -/
theorem settled_not_receiving {session : PayloadSession} {out : Place} {recv : MuxRecv (m + 1)}
    {v : MuxLoop (m + 1)} (hpre : ∀ a ∈ pre, a.isFrame = true)
    (hat : drain (MuxLoop.feed env) (some r) pre = (some v, [])) (hover : Settled final v) :
    r.pc ≠ .receiving session out recv := by
  intro hpc
  cases pre with
  | nil =>
    obtain rfl := Option.some.inj (congrArg Prod.fst hat)
    have := hover.over
    simp [hpc, MuxPc.over] at this
  | cons a pre =>
    have hstep : InStep env r (a :: pre) := by
      rw [InStep, hat]
      simp
    obtain ⟨content, offset, useZstd, hhead, -⟩ :=
      talk_receiving hstep (List.cons_ne_nil _ _) hpc
    obtain rfl := Option.some.inj hhead
    cases hpre _ (List.mem_cons_self ..)

theorem work_talk {move : RecvMove (m + 1)} (h : InTalk codec final s)
    (hs : step codec capDown capUp s (.work move) = some s') : InTalk codec final s' := by
  simp only [step] at hs
  split_ifs at hs with hreg
  obtain ⟨recv, hwork, rfl⟩ := Option.map_eq_some_iff.mp hs
  unfold MuxLoop.work at hwork
  split at hwork
  next session' out' pr' hpc =>
    obtain ⟨pr₁, hmove, rfl⟩ := Option.map_eq_some_iff.mp hwork
    -- readers at their start do not move
    have hquiet (hreading : ∀ k, (pr'.taps k).pc = .reading) : InTalk codec final
        { s with recv := s.recv.wrote session' out' pr₁ } := by
      cases move with
      | fail k error => cases hreg
      | write k => simp [RecvMove.run, MuxRecv.write, hreading] at hmove
      | count k => simp [RecvMove.run, MuxRecv.count, hreading] at hmove
    cases h with
    | quiet flight hsched hframes hone hdown htalk => exact hquiet (receiving_quiet htalk hpc)
    | busy pre post rest job sched pr body v l session out hrun hpre hpost hrest hdown hpay hserr
        hrerr hcarry hat hrecv htalk =>
      cases pre with
      | cons a pre =>
        obtain ⟨rfl, -⟩ : s.recv = v ∧ pr = _ := hrecv.resolve_right fun h => by cases h.1
        exact hquiet (receiving_quiet htalk hpc)
      | nil =>
        obtain ⟨hpc', hput⟩ := open_eq hat hrecv
        rw [hpc] at hpc'
        obtain ⟨rfl, rfl, rfl⟩ := MuxPc.receiving.inj hpc'
        refine .busy [] post rest job sched pr₁ body v l session' out' hrun hpre hpost hrest hdown
          (hpay.recvMove hmove) hserr (RecvMove.run_error hreg hmove hrerr) hcarry hat
          (.inr ⟨rfl, ?_⟩) htalk
        simp only [MuxLoop.wrote, hput]
        rfl
    | trailing job rest sched pr hsched htodo hrest hne hdown hpay hserr hrerr hdone htalk =>
      exact hquiet (receiving_quiet htalk hpc)
    | settled pre tail v hpre hdown hat hover hup hreply =>
      exact absurd hpc (settled_not_receiving hpre hat hover)
  next => cases hwork

theorem ret_talk (h : InTalk codec final s) (hs : step codec capDown capUp s .ret = some s') :
    InTalk codec final s' := by
  simp only [step] at hs
  obtain ⟨recv, hret, rfl⟩ := Option.map_eq_some_iff.mp hs
  unfold MuxLoop.ret at hret
  split at hret
  next session' out' pr' hpc =>
    split_ifs at hret with hj
    obtain rfl := Option.some.inj hret
    -- readers at their start are not joined
    have hquiet {P : Prop} (hreading : ∀ k, (pr'.taps k).pc = .reading) : P := by
      have := hj 0
      simp [hreading, ReaderPc.stopped] at this
    cases h with
    | quiet flight hsched hframes hone hdown htalk => exact hquiet (receiving_quiet htalk hpc)
    | busy pre post rest job sched pr body v l session out hrun hpre hpost hrest hdown hpay hserr
        hrerr hcarry hat hrecv htalk =>
      cases pre with
      | cons a pre =>
        obtain ⟨rfl, -⟩ : s.recv = v ∧ pr = _ := hrecv.resolve_right fun h => by cases h.1
        exact hquiet (receiving_quiet htalk hpc)
      | nil =>
        obtain ⟨hpc', hput⟩ := open_eq hat hrecv
        rw [hpc] at hpc'
        obtain ⟨rfl, rfl, rfl⟩ := MuxPc.receiving.inj hpc'
        obtain rfl := Option.some.inj (congrArg Prod.fst hat)
        have hdone := hpay.done_of_joined hj hrerr
        obtain ⟨-, hpart, hwritten, -, -, hbody⟩ := hpay.arrived (Nat.succ_pos m) hdone
        have hresult : pr'.result = (.ok job.content.length, job.target) := by
          rw [MuxRecv.result, hrerr, hwritten, hpart]
        have hrecv' : s.recv.returned session' out' pr'.result =
            behindPayload l session' out' job := by
          rw [hresult, MuxLoop.returned, hput]
          rfl
        rw [hrecv']
        -- the conversation has the payload too
        have hup : s.up ++ s.reply = [] := htalk.answers_eq
        have htalk' := htalk.recv
        rw [feed_payload hcarry] at htalk'
        rw [← hup] at htalk'
        rcases hrun with ⟨hsched, rfl, htodo⟩ | ⟨hsched, hfin, rfl⟩
        · have hnil : body = fun _ => [] := funext hbody
          subst hnil
          refine .trailing job rest sched pr' hsched htodo hrest ?_ (fun k => by simp [hdown]) hpay
            hserr hrerr hdone htalk'
          rintro rfl
          exact (mux_follows env m).expect_ne_busy htalk'.agree rfl
        · exact .quiet post hsched hpost (by rw [hrest]; exact Nat.zero_le _)
            (fun k => by simp [hdown, hbody]) htalk'
    | trailing job rest sched pr hsched htodo hrest hne hdown hpay hserr hrerr hdone htalk =>
      exact hquiet (receiving_quiet htalk hpc)
    | settled pre tail v hpre hdown hat hover hup hreply =>
      exact absurd hpc (settled_not_receiving hpre hat hover)
  next => cases hret

theorem reply_talk (h : InTalk codec final s) (hs : step codec capDown capUp s .reply = some s') :
    InTalk codec final s' := by
  simp only [step] at hs
  split at hs
  next => cases hs
  next f reply hreply =>
    split_ifs at hs
    obtain rfl := Option.some.inj hs
    have hsame : s.up ++ [f] ++ reply = s.up ++ s.reply := by rw [hreply, ← List.append_cons]
    cases h with
    | quiet flight hsched hframes hone hdown htalk =>
      rw [← hsame] at htalk
      exact .quiet flight hsched hframes hone hdown htalk
    | busy pre post rest job sched pr body v l session out hrun hpre hpost hrest hdown hpay hserr
        hrerr hcarry hat hrecv htalk =>
      rw [← hsame] at htalk
      exact .busy pre post rest job sched pr body v l session out hrun hpre hpost hrest hdown hpay
        hserr hrerr hcarry hat hrecv htalk
    | trailing job rest sched pr hsched htodo hrest hne hdown hpay hserr hrerr hdone htalk =>
      rw [← hsame] at htalk
      exact .trailing job rest sched pr hsched htodo hrest hne hdown hpay hserr hrerr hdone htalk
    | settled pre tail v hpre hdown hat hover hup hnil =>
      rw [hnil] at hreply
      cases hreply

theorem answer_talk (h : InTalk codec final s)
    (hs : step codec capDown capUp s .answer = some s') : InTalk codec final s' := by
  simp only [step] at hs
  split at hs
  next => cases hs
  next f up hup =>
    obtain ⟨send, hans, rfl⟩ := Option.map_eq_some_iff.mp hs
    cases h with
    | quiet flight hsched hframes hone hdown htalk =>
      rw [hup, List.cons_append] at htalk
      obtain ⟨hahead, hnil, -, htalk'⟩ := (mux_follows env m).talk_answer htalk hans
      obtain ⟨rfl, -⟩ := List.append_eq_nil_iff.mp hahead
      refine .quiet [] hsched hframes (payloads_answer hans) hdown ?_
      rw [hnil]
      exact htalk'
    | busy pre post rest job sched pr body v l session out hrun hpre hpost hrest hdown hpay hserr
        hrerr hcarry hat hrecv htalk =>
      -- a payload is ahead, so no answer is on its way
      have := htalk.turn (by simp [hup])
      simp at this
    | trailing job rest sched pr hsched htodo =>
      simp [SendOps.answer, htodo] at hans
    | settled pre tail v hpre hdown hat hover hnil =>
      rw [hnil] at hup
      cases hup

theorem closed_talk (h : InTalk codec final s)
    (hs : step codec capDown capUp s .closed = some s') : InTalk codec final s' := by
  simp only [step] at hs
  split_ifs at hs with hgone
  obtain ⟨hsent, hempty, hreply⟩ := hgone
  obtain ⟨hover, htodo⟩ := Bool.and_eq_true_iff.mp hsent
  obtain htodo := List.isEmpty_iff.mp htodo
  obtain ⟨recv, hclosed, rfl⟩ := Option.map_eq_some_iff.mp hs
  cases h with
  | quiet flight hsched hframes hone hdown htalk =>
    obtain rfl : flight = [] :=
      eq_nil_of_onChannel hframes fun k => (hdown k).symm.trans (hempty k)
    rw [htodo, hreply, List.nil_append, List.append_nil] at htalk
    obtain ⟨l, hl, hup, htalk'⟩ := gone_cases (R := muxReceiver env m) htalk hover
      (fun l hl => by rw [Option.some.inj hl] at hclosed; cases hclosed)
      (fun e l hl => by rw [Option.some.inj hl] at hclosed; cases hclosed)
    rw [Option.some.inj hl] at hclosed
    obtain rfl := Option.some.inj hclosed
    refine .quiet [] hsched hframes hone hdown ?_
    rw [htodo, hreply, hup]
    exact htalk'
  | busy pre post rest job sched pr body v l session out hrun hpre hpost hrest hdown hpay hserr
      hrerr hcarry hat hrecv htalk =>
    have hpre' : pre = [] := eq_nil_of_onChannel hpre fun k =>
      (List.append_eq_nil_iff.mp ((hdown k).symm.trans (hempty k))).1
    subst hpre'
    obtain ⟨hpc, -⟩ := open_eq hat hrecv
    simp [MuxLoop.closed, hpc] at hclosed
  | trailing job rest sched pr hsched htodo' =>
    rw [htodo] at htodo'
    cases htodo'
  | settled pre tail v hpre hdown hat hover' hup =>
    have hpre' : pre = [] := eq_nil_of_onChannel hpre fun k =>
      (List.append_eq_nil_iff.mp ((hdown k).symm.trans (hempty k))).1
    subst hpre'
    obtain rfl := Option.some.inj (congrArg Prod.fst hat)
    have := hover'.over
    cases hpc : s.recv.pc with
    | finished => simp [MuxLoop.closed, hpc] at hclosed
    | thrown e => simp [MuxLoop.closed, hpc] at hclosed
    | _ => simp [hpc, MuxPc.over] at this

theorem step_talk {l : Label (m + 1)} (h : InTalk codec final s)
    (hs : step codec capDown capUp s l = some s') : InTalk codec final s' := by
  cases l with
  | send => exact send_talk h hs
  | begin => exact begin_talk h hs
  | sched move => exact sched_talk h hs
  | finish => exact finish_talk h hs
  | take k => exact take_talk h hs
  | work move => exact work_talk h hs
  | ret => exact ret_talk h hs
  | reply => exact reply_talk h hs
  | answer => exact answer_talk h hs
  | closed => exact closed_talk h hs

theorem reach_talk {sources : List (Source env.prims)} {d : Disk}
    (h : Lts.Reach (step codec capDown capUp) (init m sources d) s) :
    InTalk codec (conclusion env sources { disk := d }) s :=
  h.invariant (init_talk m sources d) fun hinv _ hs => step_talk hinv hs

/-! ## Where it ends

When the receiver is over, whatever picture it came out of, the tree, the log and the counts
(or the error) are those of `transferAll`. Nothing is said of the sender here: it may still be
sending. -/

/-- In each picture, a receiver that is over is where the transfer ends. -/
theorem inTalk_settled (h : InTalk codec final s) (hover : s.recv.pc.over = true) :
    Settled final s.recv := by
  cases h with
  | quiet flight hsched hframes hone hdown htalk => exact talk_settled htalk hover
  | busy pre post rest job sched pr body v l session out hrun hpre hpost hrest hdown hpay hserr
      hrerr hcarry hat hrecv htalk =>
    cases pre with
    | cons a pre =>
      obtain ⟨rfl, -⟩ : s.recv = v ∧ pr = _ := hrecv.resolve_right fun h => by cases h.1
      exact talk_settled htalk hover
    | nil =>
      obtain ⟨hpc, -⟩ := open_eq hat hrecv
      simp [hpc, MuxPc.over] at hover
  | trailing job rest sched pr hsched htodo hrest hne hdown hpay hserr hrerr hdone htalk =>
    exact talk_settled htalk hover
  | settled pre tail v hpre hdown hat hsettled =>
    rw [drain_over hover] at hat
    rw [Option.some.inj (congrArg Prod.fst hat)]
    exact hsettled

/-- **A receiver that is over has done what `transferAll` says.** -/
theorem receiver_over {sources : List (Source env.prims)} {d : Disk}
    (h : Lts.Reach (step codec capDown capUp) (init m sources d) s) :
    (∀ e, s.recv.pc = .thrown e →
      conclusion env sources { disk := d } = .error (e, s.recv.loop.disk)) ∧
    (s.recv.pc = .finished → conclusion env sources { disk := d } = .ok s.recv.loop) := by
  have hsettled (hover : s.recv.pc.over = true) := inTalk_settled (reach_talk h) hover
  refine ⟨fun e hpc => ?_, fun hpc => ?_⟩
  · simpa [Settled, hpc] using hsettled (by rw [hpc]; rfl)
  · simpa [Settled, hpc] using hsettled (by rw [hpc]; rfl)

/-! ## Who moves

Progress picture by picture. While a payload is under way it is `PayloadInv.progress`, with a
channel that has room because it is empty; in the quiet picture it is whoever has the word. -/

/-- The frame in front is on its channel, and the loop takes it. -/
theorem take_enabled (tail : Fin (m + 1) → List Frame) {a : Act (m + 1)}
    (hframes : ∀ b ∈ a :: pre, b.isFrame = true)
    (hdown : ∀ k, s.down k = onChannel k (a :: pre) ++ tail k)
    (hstep : InStep env s.recv (a :: pre)) (hover : s.recv.pc.over = false)
    (hreply : s.reply = []) : ∃ l s', step codec capDown capUp s l = some s' := by
  cases a with
  | payload => cases hframes _ (List.mem_cons_self ..)
  | frame k f =>
    have hchan := hdown k
    rw [onChannel_cons_self, List.cons_append] at hchan
    have htake := take_of_reads env codec (hstep.reads hover) f
    refine ⟨.take k, ?_⟩
    simp only [step, hchan, hreply, if_true, htake, Option.map_some]
    exact ⟨_, rfl⟩

/-- While the scheduler is at work it can move, or a reader can. -/
theorem sched_enabled {job : Job} {sched : MuxSend (m + 1)} {pr : MuxRecv (m + 1)}
    {body : Fin (m + 1) → List Frame} (hroom : ∀ k c, capDown k = some c → 0 < c)
    (hpay : PayloadInv codec job sched pr body) (hserr : sched.error = none)
    (hrerr : pr.error = none) (hopen : ¬ (sched.pc = .finished ∧ pr.joined))
    (hrun : (s.scheduler = some sched ∧ s.send.todo = payloadAct job :: rest ∧
      ∀ k, body k = [] → s.down k = []) ∨ sched.pc = .finished) :
    (∃ l s', step codec capDown capUp s l = some s') ∨
      (∃ move pr', RecvMove.regular move = true ∧ RecvMove.run pr move = some pr') ∨
      ∃ k f left, body k = f :: left ∧ (pr.taps k).pc = .reading := by
  rcases hpay.progress (Nat.succ_pos m) hserr hrerr hopen with
    ⟨move, sched', hreg, hmove⟩ | ⟨move, k, f, sched', hreg, hmove, hbody⟩ | hrecv | hread
  · rcases hrun with ⟨hsched, htodo, -⟩ | hfin
    · refine .inl ⟨.sched move, ?_⟩
      simp only [step, hsched, htodo, payloadAct, hreg, if_true, hmove, Option.bind_some]
      exact ⟨_, rfl⟩
    · exact (MuxDelivery.finished_of_run hpay.send hfin hmove).elim
  · rcases hrun with ⟨hsched, htodo, hempty⟩ | hfin
    · refine .inl ⟨.sched move, ?_⟩
      simp only [step, hsched, htodo, payloadAct, hreg, if_true, hmove, Option.bind_some,
        hempty k hbody, hasRoom_nil (hroom k)]
      exact ⟨_, rfl⟩
    · exact (MuxDelivery.finished_of_run hpay.send hfin hmove).elim
  · exact .inr (.inl hrecv)
  · exact .inr (.inr hread)

/-- **Until the receiver is over, some thread can move.** -/
theorem talk_progress (hroom : ∀ k c, capDown k = some c → 0 < c)
    (hup : ∀ c, capUp = some c → 0 < c) (h : InTalk codec final s) (hreceived : s.received = false) :
    ∃ l s', step codec capDown capUp s l = some s' := by
  have hlive (hreply : s.reply = []) : s.recv.pc.over = false := by
    simpa [System.received, hreply] using hreceived
  cases h with
  | quiet flight hsched hframes hone hdown htalk =>
    cases hups : s.up with
    -- A reply has arrived: the sender has nothing else to do, and takes it.
    | cons f up =>
      rw [hups, List.cons_append] at htalk
      obtain ⟨hahead, -⟩ := htalk.answered
      have htodo := (List.append_eq_nil_iff.mp hahead).2
      have hwait : s.send.wait.over = false := by
        by_contra hover
        cases answers_of_over (R := muxReceiver env m) htalk (Bool.not_eq_false _ ▸ hover)
      obtain ⟨send, hans⟩ := exists_answer (muxSend env.prims m) htodo hwait f
      exact ⟨.answer, { s with send := send, up := up },
        by simp only [step, hups, hans, Option.map_some]⟩
    | nil =>
      cases hreply : s.reply with
      -- A reply stands at the receiver: the channel back is empty, so there is room for it.
      | cons f reply =>
        refine ⟨.reply, ?_⟩
        simp only [step, hreply, hups, hasRoom_nil hup, if_true]
        exact ⟨_, rfl⟩
      | nil =>
        cases flight with
        | cons a flight =>
          exact take_enabled (fun _ => []) hframes
            (fun k => by rw [hdown, List.append_nil]) (talk_inStep htalk).head (hlive hreply) hreply
        | nil =>
          cases htodo : s.send.todo with
          | cons a todo =>
            cases a with
            | frame k f =>
              refine ⟨.send, ?_⟩
              simp only [step, hsched, htodo, hdown, onChannel_nil, hasRoom_nil (hroom k), if_true]
              exact ⟨_, rfl⟩
            -- The sender starts its scheduler; nothing is on the channels yet.
            | payload content offset useZstd =>
              refine ⟨.begin, ?_⟩
              simp only [step, hsched, htodo]
              exact ⟨_, rfl⟩
          | nil =>
            rw [htodo, hups, hreply, List.nil_append] at htalk
            cases hw : s.send.wait.over with
            | true =>
              -- the receiver is between two entries, and finds the channel closed
              have hview := (mux_follows env m).expect_ne_busy htalk.agree
              have hover := hlive hreply
              have hclosed : ∃ recv, s.recv.closed = some recv := by
                unfold MuxLoop.closed
                cases hpc : s.recv.pc with
                | receiving => simp [muxReceiver, hpc] at hview
                | finished => simp [hpc, MuxPc.over] at hover
                | thrown e => simp [hpc, MuxPc.over] at hover
                | _ => exact ⟨_, rfl⟩
              obtain ⟨recv, hclosed⟩ := hclosed
              refine ⟨.closed, ?_⟩
              simp [step, System.sent, hw, htodo, hdown, hreply, hclosed]
            | false =>
              have hnot : ∀ e l, some s.recv = (muxReceiver env m).thrown e l →
                  ([] : List Frame) ≠ [] := by
                intro e l hr
                have hover := hlive hreply
                rw [Option.some.inj hr] at hover
                cases hover
              rcases turn_cases htalk (.inl hw) hnot with ⟨hne, -⟩ | ⟨-, hasks⟩
              · exact absurd rfl hne
              · exact absurd rfl hasks.ne_nil
  | busy pre post rest job sched pr body v l session out hrun hpre hpost hrest hdown hpay hserr
      hrerr hcarry hat hrecv htalk =>
    have hnil : s.up ++ s.reply = [] := by
      by_contra hne
      simpa using htalk.turn hne
    have hreply := (List.append_eq_nil_iff.mp hnil).2
    cases pre with
    | cons a pre =>
      obtain ⟨rfl, -⟩ : s.recv = v ∧ pr = _ := hrecv.resolve_right fun h => by cases h.1
      exact take_enabled _ hpre hdown (talk_inStep htalk).head (hlive hreply) hreply
    | nil =>
      obtain ⟨hpc, -⟩ := open_eq hat hrecv
      by_cases hopen : sched.pc = .finished ∧ pr.joined
      · refine ⟨.ret, ?_⟩
        simp only [step, MuxLoop.ret, hpc, if_pos hopen.2, Option.map_some]
        exact ⟨_, rfl⟩
      · have hrun' : (s.scheduler = some sched ∧ s.send.todo = payloadAct job :: rest ∧
            ∀ k, body k = [] → s.down k = []) ∨ sched.pc = .finished := by
          rcases hrun with ⟨hsched, rfl, htodo⟩ | ⟨-, hfin, -⟩
          · exact .inl ⟨hsched, htodo, fun k hk => by simp [hdown, hk]⟩
          · exact .inr hfin
        rcases sched_enabled hroom hpay hserr hrerr hopen hrun' with
          hstep | ⟨move, pr', hreg, hmove⟩ | ⟨k, f, left, hbody, hreading⟩
        · exact hstep
        · refine ⟨.work move, ?_⟩
          simp only [step, hreg, if_true, MuxLoop.work, hpc, hmove, Option.map_some]
          exact ⟨_, rfl⟩
        · obtain ⟨pr', hacc, -, -⟩ := hpay.accept hbody hreading
          have hchan : s.down k = f :: (left ++ onChannel k post) := by
            rw [hdown, hbody]
            rfl
          refine ⟨.take k, ?_⟩
          simp only [step, hchan, hreply, if_true, MuxLoop.take, hpc, hcarry.params, hacc,
            Option.map_some]
          exact ⟨_, rfl⟩
  | trailing job rest sched pr hsched htodo hrest hne hdown hpay hserr hrerr hdone htalk =>
    by_cases hfin : sched.pc = .finished
    · refine ⟨.finish, ?_⟩
      simp only [step, hsched, htodo, if_pos hfin]
      exact ⟨_, rfl⟩
    · rcases sched_enabled hroom hpay hserr hrerr (fun h => hfin h.1)
          (.inl ⟨hsched, htodo, fun k _ => hdown k⟩) with
        hstep | ⟨move, pr', -, hmove⟩ | ⟨k, f, left, hbody, -⟩
      · exact hstep
      · exact absurd hmove (MuxDelivery.run_of_joined fun k => by rw [hdone k]; rfl)
      · cases hbody
  | settled pre tail v hpre hdown hat hover hups hreply =>
    cases pre with
    | nil =>
      obtain rfl := Option.some.inj (congrArg Prod.fst hat)
      exact absurd hover.over (by simp [hlive hreply])
    | cons a pre =>
      refine take_enabled tail hpre hdown ?_ (hlive hreply) hreply
      rw [InStep, hat]
      simp

/-- **The sides agree whose turn it is.** While neither is over, either the sender has the
    word, and no reply is on its way; or the receiver has it, nothing is on its way to it, and
    what it says is what the sender waits for. -/
theorem talk_turn (h : InTalk codec final s) (hsent : s.sent = false)
    (hreceived : s.received = false) :
    (((∃ k, s.down k ≠ []) ∨ s.send.todo ≠ []) ∧ s.up ++ s.reply = []) ∨
      ((∀ k, s.down k = []) ∧ s.send.todo = [] ∧
        (muxReceiver env m).Asks env s.send.wait (some s.recv) (s.up ++ s.reply)) := by
  -- as long as something is to be said or on its way, it is not the sender who waits
  have hpending {acts : List (Act (m + 1))} (tail : Fin (m + 1) → List Frame)
      (hframes : ∀ a ∈ acts, a.isFrame = true) (hdown : ∀ k, s.down k = onChannel k acts ++ tail k)
      (hne : acts ≠ []) : (∃ k, s.down k ≠ []) ∨ s.send.todo ≠ [] := by
    by_contra hnot
    simp only [not_or, not_exists, not_not] at hnot
    exact hne (eq_nil_of_onChannel hframes fun k =>
      (List.append_eq_nil_iff.mp ((hdown k).symm.trans (hnot.1 k))).1)
  cases h with
  -- no payload is under way: whose turn it is can be read off the conversation
  | quiet flight hsched hframes hone hdown htalk =>
    have hwait : s.send.wait.over = false ∨ flight ++ s.send.todo ≠ [] := by
      rcases Bool.and_eq_false_iff.mp hsent with hwait | htodo
      · exact .inl hwait
      · exact .inr fun hnil => by simp [(List.append_eq_nil_iff.mp hnil).2] at htodo
    have hthrown : ∀ e l, some s.recv = (muxReceiver env m).thrown e l → s.up ++ s.reply ≠ [] := by
      intro e l hr hnil
      have hover : s.recv.pc.over = true := by rw [Option.some.inj hr]; rfl
      simp [System.received, hover, (List.append_eq_nil_iff.mp hnil).2] at hreceived
    rcases turn_cases htalk hwait hthrown with ⟨hne, hnil⟩ | ⟨hnil, hasks⟩
    · refine .inl ⟨?_, hnil⟩
      by_cases hflight : flight = []
      · rw [hflight] at hne
        exact .inr hne
      · exact hpending (fun _ => []) hframes (fun k => by rw [hdown, List.append_nil]) hflight
    · obtain ⟨rfl, htodo⟩ := List.append_eq_nil_iff.mp hnil
      exact .inr ⟨hdown, htodo, hasks⟩
  | busy pre post rest job sched pr body v l session out hrun hpre hpost hrest hdown hpay hserr
      hrerr hcarry hat hrecv htalk =>
    have hnil : s.up ++ s.reply = [] := by
      by_contra hne
      simpa using htalk.turn hne
    refine .inl ⟨?_, hnil⟩
    rcases hrun with ⟨-, -, htodo⟩ | ⟨-, -, htodo⟩
    · exact .inr (by rw [htodo]; exact List.cons_ne_nil _ _)
    · -- behind the payload the receiver waits for its trailer
      have hbehind : post ++ rest ≠ [] := by
        intro hempty
        have hexp := htalk.agree
        rw [drain_append, hat, hempty, drain_cons, feed_payload hcarry] at hexp
        exact (mux_follows env m).expect_ne_busy hexp rfl
      by_cases hpost' : post = []
      · rw [hpost', List.nil_append, ← htodo] at hbehind
        exact .inr hbehind
      · by_contra hnot
        simp only [not_or, not_exists, not_not] at hnot
        exact hpost' (eq_nil_of_onChannel hpost fun k =>
          (List.append_eq_nil_iff.mp (List.append_eq_nil_iff.mp ((hdown k).symm.trans (hnot.1 k))).2).2)
  -- the readers have everything, and the trailer is still to come
  | trailing job rest sched pr hsched htodo hrest hne hdown hpay hserr hrerr hdone htalk =>
    refine .inl ⟨.inr (by rw [htodo]; exact List.cons_ne_nil _ _), ?_⟩
    by_contra hnot
    exact hne (htalk.turn hnot)
  | settled pre tail v hpre hdown hat hover hups hreply =>
    have hne : pre ≠ [] := by
      rintro rfl
      obtain rfl := Option.some.inj (congrArg Prod.fst hat)
      simp [System.received, hover.over, hreply] at hreceived
    exact .inl ⟨hpending tail hpre hdown hne, by rw [hups, hreply]; rfl⟩

end Invariant

end Kiko.Transfer.MuxTransfer
