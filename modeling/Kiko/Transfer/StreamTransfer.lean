import Kiko.Lib.Transition
import Kiko.Transfer.Stream

/-!
# A transfer over one stream, both sides together

`send_files` and `receive_files` on the two ends of one connection, each direction a FIFO
channel of any capacity. A label says which side moves; a send waits for room, a receive
for a frame.

Every state reached is one of the conversation (`reach_talk`). From it: when the receiver is
over, it is where `transferAll` is (`receiver_over`), and while neither side is over, one of
them can move (`progress`).

All of the protocol is in `Conversation`; what is left here is that queues of any capacity
do not matter. A state is read as a state of the dialogue by putting together what is on its
way and what the sender has still to send (`InTalk`), and of the labels only `take` and
`answer` change that reading.
-/

set_option autoImplicit false

namespace Kiko.Transfer.StreamTransfer

open Dialogue

/-- The two sides, and what is on its way. -/
structure System (env : ReceiveEnv) (codec : StreamCodec) where
  send : SendLoop env.prims Frame
  recv : StreamRecv codec
  down : List Frame := []
  /-- what the receiver sends before it reads on -/
  reply : List Frame := []
  up : List Frame := []

inductive Label
  /-- the sender sends -/
  | send
  /-- the receiver takes a frame -/
  | take
  /-- the receiver sends -/
  | reply
  /-- the sender takes what it waits for -/
  | answer
  /-- the receiver finds that the sender has gone -/
  | closed
deriving DecidableEq, Repr

section Machine

variable {env : ReceiveEnv} {codec : StreamCodec} (capDown capUp : Option Nat)

def init (codec : StreamCodec) (sources : List (Source env.prims)) (d : Disk) : System env codec :=
  { send := (streamSend codec).start sources, recv := { loop := { disk := d } } }

/-- The receiver is over: it has thrown, or it has returned and its ack is sent. -/
def System.received (s : System env codec) : Bool := s.recv.pc.over && s.reply.isEmpty

/-- The sender is over. -/
def System.sent (s : System env codec) : Bool := s.send.wait.over && s.send.todo.isEmpty

def step (s : System env codec) : Label → Option (System env codec)
  | .send =>
    match s.send.todo with
    | [] => none
    | f :: todo =>
      if hasRoom capDown s.down then
        some { s with send := { s.send with todo := todo }, down := s.down ++ [f] }
      else none
  | .take =>
    match s.down with
    | [] => none
    | f :: down =>
      if s.reply = [] ∧ s.recv.pc.over = false then
        some { s with
          recv := (s.recv.feed env f).1, reply := (s.recv.feed env f).2, down := down }
      else none
  | .reply =>
    match s.reply with
    | [] => none
    | f :: reply =>
      if hasRoom capUp s.up then some { s with reply := reply, up := s.up ++ [f] } else none
  | .answer =>
    match s.up with
    | [] => none
    | f :: up =>
      ((streamSend codec).answer s.send f).map fun send => { s with send := send, up := up }
  | .closed =>
    if s.sent ∧ s.down = [] ∧ s.reply = [] ∧ s.recv.pc.over = false then
      some { s with recv := s.recv.closed }
    else none

end Machine

section Invariant

variable {env : ReceiveEnv} {codec : StreamCodec} {capDown capUp : Option Nat}
  {sources : List (Source env.prims)} {d : Disk} {final : Except (KikoError × Disk) Loop}

/-- The conversation a state is in. -/
def InTalk (final : Except (KikoError × Disk) Loop) (s : System env codec) : Prop :=
  Talk (streamReceiver env codec).feed (Expect env (streamReceiver env codec) final) s.send.wait
    s.recv (s.down ++ s.send.todo) (s.up ++ s.reply)

theorem recv_eq {r : StreamRecv codec} {pc : StreamPc codec} (h : r.pc = pc) :
    r = { loop := r.loop, pc := pc } := by
  subst h
  rfl

theorem ne_finished {r : StreamRecv codec} (h : r.pc.over = false) (l : Loop) :
    r ≠ (streamReceiver env codec).finished l := by
  rintro rfl
  cases h

theorem ne_thrown {r : StreamRecv codec} (h : r.pc.over = false) (e : KikoError) (l : Loop) :
    r ≠ (streamReceiver env codec).thrown e l := by
  rintro rfl
  cases h

theorem init_talk : InTalk (conclusion env sources { disk := d }) (init codec sources d) :=
  (stream_follows env codec).talk_start sources { disk := d }

theorem step_talk {s s' : System env codec} {l : Label} (h : InTalk final s)
    (hs : step capDown capUp s l = some s') : InTalk final s' := by
  cases l with
  -- What is put on its way was ahead before, and is ahead still.
  | send =>
    simp only [step] at hs
    split at hs
    next => cases hs
    next f todo htodo =>
      split_ifs at hs
      obtain rfl := Option.some.inj hs
      unfold InTalk at h ⊢
      rwa [htodo, List.append_cons] at h
  -- The one thing the dialogue has to answer for: the next message is fed.
  | take =>
    simp only [step] at hs
    split at hs
    next => cases hs
    next f down hdown =>
      split_ifs at hs with hlive
      obtain rfl := Option.some.inj hs
      unfold InTalk at h ⊢
      rw [hdown, List.cons_append] at h
      have hup : s.up = [] := (List.append_eq_nil_iff.mp h.answers_eq).1
      rw [hup, List.nil_append]
      exact h.recv
  -- A reply goes from the hand of the receiver into the channel.
  | reply =>
    simp only [step] at hs
    split at hs
    next => cases hs
    next f reply hreply =>
      split_ifs at hs
      obtain rfl := Option.some.inj hs
      unfold InTalk at h ⊢
      rwa [hreply, List.append_cons] at h
  | answer =>
    simp only [step] at hs
    split at hs
    next => cases hs
    next f up hup =>
      obtain ⟨send, hans, rfl⟩ := Option.map_eq_some_iff.mp hs
      unfold InTalk at h ⊢
      rw [hup, List.cons_append] at h
      obtain ⟨hahead, hnil, -, htalk⟩ := (stream_follows env codec).talk_answer h hans
      obtain ⟨hdown, -⟩ := List.append_eq_nil_iff.mp hahead
      rw [hdown, hnil]
      exact htalk
  | closed =>
    simp only [step] at hs
    split_ifs at hs with hgone
    obtain rfl := Option.some.inj hs
    obtain ⟨hsent, hdown, hreply, hlive⟩ := hgone
    obtain ⟨hover, htodo⟩ := Bool.and_eq_true_iff.mp hsent
    obtain htodo := List.isEmpty_iff.mp htodo
    unfold InTalk at h ⊢
    rw [hdown, htodo, hreply, List.append_nil, List.append_nil] at h
    obtain ⟨l, hl, hup, htalk⟩ := gone_cases h hover (ne_finished hlive) (ne_thrown hlive)
    rw [hl, hup, hdown, htodo, hreply]
    exact htalk

theorem reach_talk {s : System env codec}
    (h : Lts.Reach (step capDown capUp) (init codec sources d) s) :
    InTalk (conclusion env sources { disk := d }) s :=
  h.invariant init_talk fun hinv _ hs => step_talk hinv hs

/-! ## Where it ends

The two ends a receiver can come to, each with what `transferAll` says of the same sources
and the same disk: so the interleaving has no influence on what is received. -/

/-- **A receiver that is over has done what `transferAll` says.** -/
theorem receiver_over {s : System env codec}
    (h : Lts.Reach (step capDown capUp) (init codec sources d) s) :
    (∀ e, s.recv.pc = .thrown e →
      conclusion env sources { disk := d } = .error (e, s.recv.loop.disk)) ∧
    (s.recv.pc = .finished → conclusion env sources { disk := d } = .ok s.recv.loop) := by
  obtain ⟨hthrown, hfinished⟩ := (stream_follows env codec).over (reach_talk h)
  exact ⟨fun e hpc => hthrown e s.recv.loop (recv_eq hpc),
    fun hpc => hfinished s.recv.loop (recv_eq hpc)⟩

/-! ## Who moves

Progress needs room for one frame in each direction and nothing else. It is by cases from
the back of the dialogue to its front: a reply that has arrived, one that is to be sent, a
frame that is on its way, one that is to be sent. -/

/-- **Until the receiver is over, someone can move**: the receiver sends what it has to, the
    sender takes what it waits for, what is ahead goes on, or the receiver finds the sender
    gone. -/
theorem talk_progress (hdown : ∀ c, capDown = some c → 0 < c) (hup : ∀ c, capUp = some c → 0 < c)
    {s : System env codec} (h : InTalk final s) (hreceived : s.received = false) :
    ∃ l s', step capDown capUp s l = some s' := by
  unfold InTalk at h
  cases hups : s.up with
  | cons f up =>
    -- a reply is on its way: the sender has nothing left to send, and takes it
    rw [hups, List.cons_append] at h
    obtain ⟨hahead, -⟩ := h.answered
    have htodo := (List.append_eq_nil_iff.mp hahead).2
    have hwait : s.send.wait.over = false := by
      by_contra hover
      cases answers_of_over h (Bool.not_eq_false _ ▸ hover)
    obtain ⟨send, hans⟩ := exists_answer (streamSend codec) htodo hwait f
    exact ⟨.answer, { s with send := send, up := up }, by simp only [step, hups, hans, Option.map_some]⟩
  | nil =>
    cases hreply : s.reply with
    | cons f reply =>
      refine ⟨.reply, ?_⟩
      simp only [step, hreply, hups, hasRoom_nil hup, if_true]
      exact ⟨_, rfl⟩
    | nil =>
      have hlive : s.recv.pc.over = false := by
        simpa [System.received, hreply] using hreceived
      cases hdowns : s.down with
      | cons f down =>
        refine ⟨.take, ?_⟩
        simp only [step, hdowns, hreply, hlive, and_self, if_true]
        exact ⟨_, rfl⟩
      | nil =>
        cases htodo : s.send.todo with
        | cons f todo =>
          refine ⟨.send, ?_⟩
          simp only [step, htodo, hdowns, hasRoom_nil hdown, if_true]
          exact ⟨_, rfl⟩
        | nil =>
          rw [hdowns, htodo, hups, hreply] at h
          cases hw : s.send.wait.over with
          | true =>
            refine ⟨.closed, ?_⟩
            simp only [step, System.sent, hw, htodo, hdowns, hreply, hlive, List.isEmpty_nil,
              Bool.and_self, and_self, if_true]
            exact ⟨_, rfl⟩
          | false =>
            -- both wait and nothing is on its way: that is never so
            rcases turn_cases h (.inl hw) (fun e l hr => absurd hr (ne_thrown hlive e l)) with
              ⟨hne, -⟩ | ⟨-, hasks⟩
            · exact absurd rfl hne
            · exact absurd rfl hasks.ne_nil

/-- **The sides agree whose turn it is.** While neither is over, either the sender has the
    word, and no reply is on its way; or the receiver has it, nothing is on its way to it, and
    what it says is what the sender waits for. -/
theorem talk_turn {s : System env codec} (h : InTalk final s) (hsent : s.sent = false)
    (hreceived : s.received = false) :
    (s.down ++ s.send.todo ≠ [] ∧ s.up ++ s.reply = []) ∨
      (s.down ++ s.send.todo = [] ∧
        (streamReceiver env codec).Asks env s.send.wait s.recv (s.up ++ s.reply)) := by
  refine turn_cases h ?_ fun e l hr hnil => ?_
  · rcases Bool.and_eq_false_iff.mp hsent with hwait | htodo
    · exact .inl hwait
    · exact .inr fun hnil => by simp [(List.append_eq_nil_iff.mp hnil).2] at htodo
  · have hover : s.recv.pc.over = true := by rw [hr]; rfl
    simp [System.received, hover, (List.append_eq_nil_iff.mp hnil).2] at hreceived

end Invariant
end Kiko.Transfer.StreamTransfer
