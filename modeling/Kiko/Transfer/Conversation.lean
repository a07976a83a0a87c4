import Kiko.Transfer.Exchange

/-!
# The conversation both paths hold

Sender and receiver of either path speak half-duplex: the sender puts the answer to a
question, the payload, the trailer and the next header on its way and waits; the receiver
takes all of it and asks about the header. `Follows` says what a path's receiver has to do
with what a path's sender says, one law for each kind of step, and the results of this
module hold of every path that does so:

* the conversation starts right and every answer that is read keeps it right
  (`talk_start`, `talk_answer`), so that it is never one side's turn in the other's eyes;
* where it ends is where `transferAll` ends (`Expect`).

Why this level. To say that two loops with queues between them stay in step, a proof by
states would have to consider every place of one against every place of the other. Here
the two are compared only at the moments where an answer is read: in between, all that
matters is where feeding what is ahead leads, and that no step of a queue can change. The
general part of this is `Kiko.Lib.Dialogue`; what is added is what the sender of a
transfer waits for (`Expect`).
-/

set_option autoImplicit false

namespace Kiko.Transfer

open Dialogue

/-- Where a receiver stands, as far as its conversation goes. -/
inductive View
  | idle (loop : Loop)
  | await (loop : Loop) (pending : Pending)
  | finished (loop : Loop)
  | thrown (error : KikoError) (loop : Loop)
  | busy

/-- A receiver as its conversation sees it. -/
structure Receiver (ρ α : Type) where
  view : ρ → View
  /-- what it makes of what the sender says, and what it replies -/
  feed : ρ → α → ρ × List Frame
  idle : Loop → ρ
  /-- it has asked where to resume -/
  await : Loop → Pending → ρ
  finished : Loop → ρ
  thrown : KikoError → Loop → ρ

section Conversation

variable {ρ α : Type}

/-- The receiver is where a step with this verdict leaves it. -/
def Receiver.Shows (R : Receiver ρ α) (r : ρ) : Except (KikoError × Disk) Loop → Prop
  | .ok l => r = R.idle l
  | .error (e, d) => ∃ l, r = R.thrown e l ∧ l.disk = d

/-- What a path's receiver makes of what its sender says. -/
structure Follows (env : ReceiveEnv) (ops : SendOps env.prims α) (R : Receiver ρ α) : Prop where
  view_idle : ∀ l, R.view (R.idle l) = .idle l
  view_await : ∀ l p, R.view (R.await l p) = .await l p
  view_finished : ∀ l, R.view (R.finished l) = .finished l
  view_thrown : ∀ e l, R.view (R.thrown e l) = .thrown e l
  absorbs : ∀ e l a, R.feed (R.thrown e l) a = (R.thrown e l, [])
  absorbs_finished : ∀ l a, R.feed (R.finished l) a = (R.finished l, [])
  manifest : ∀ l text, (R.feed (R.idle l) (ops.control (.manifest text))).2 = [] ∧
    R.Shows (R.feed (R.idle l) (ops.control (.manifest text))).1 (verdict (env.takeManifest text) l)
  fileHeader : ∀ l header, R.feed (R.idle l) (ops.control (.fileHeader header)) =
    match env.takeFileHeader header l with
    | .ok p l' => (R.await l' p, [.resume p.request])
    | .error e l' => (R.thrown e l', [])
  done : ∀ l, R.feed (R.idle l) (ops.control .done) =
    match takeDone l with
    | .ok _ l' => (R.finished l', [.ack])
    | .error e l' => (R.thrown e l', [])
  /-- an entry is taken without a word, and comes to what `exchange` says -/
  entry : ∀ l p source, Offers env source l.disk.tree p →
    (drain R.feed (R.await l p) (ops.entry source (agreedSession source p))).2 = [] ∧
      R.Shows (drain R.feed (R.await l p) (ops.entry source (agreedSession source p))).1
        (verdict (env.exchange source p) l)

/-- Where a transfer ends. -/
def conclusion (env : ReceiveEnv) (sources : List (Source env.prims)) (l : Loop) :
    Except (KikoError × Disk) Loop :=
  match encodeTransferManifest env.prims (sources.map (·.entry)) with
  | .error _ => .error (streamEnded, l.disk)
  | .ok text => verdict (env.transferAll text sources) l

/-- The receiver has thrown, as the transfer was to end. -/
def Receiver.Failed (R : Receiver ρ α) (final : Except (KikoError × Disk) Loop) (r : ρ)
    (answers : List Frame) : Prop :=
  ∃ e l, r = R.thrown e l ∧ answers = [] ∧ final = .error (e, l.disk)

/-- What a waiting sender may rely on, once the receiver has taken all that is ahead. -/
def Expect (env : ReceiveEnv) (R : Receiver ρ α) (final : Except (KikoError × Disk) Loop) :
    Wait env.prims → ρ → List Frame → Prop
  | .resume source rest, r, answers =>
    (∃ l p, r = R.await l p ∧ answers = [.resume p.request] ∧ Offers env source l.disk.tree p ∧
      final = verdict (do env.exchange source p; env.transferEntries rest) l) ∨
    R.Failed final r answers
  | .ack, r, answers =>
    (∃ l, r = R.finished l ∧ answers = [.ack] ∧ final = .ok l) ∨ R.Failed final r answers
  | .returned, r, answers => ∃ l, r = R.finished l ∧ answers = [] ∧ final = .ok l
  | .thrown _, r, answers =>
    (∃ l, r = R.idle l ∧ answers = [] ∧ final = .error (streamEnded, l.disk)) ∨
    R.Failed final r answers

/-! ## Verdicts -/

theorem verdict_bind (m m' : LoopM Unit) (l : Loop) :
    verdict (do m; m') l = (verdict m l).bind (verdict m') := by
  simp only [verdict, bind, EStateM.bind]
  cases m l <;> rfl

/-! ## The laws at work

Each result is by cases on what the sender waits for, and each case uses one law of
`Follows`. A receiver that has failed is carried along everywhere: it takes whatever comes
and says nothing, so the sender runs to the end of its script or waits for a reply that
does not come. -/

variable {env : ReceiveEnv} {ops : SendOps env.prims α} {R : Receiver ρ α}
  {final : Except (KikoError × Disk) Loop} {sources rest : List (Source env.prims)}
  {source : Source env.prims} {r : ρ} {f : Frame} {answers : List Frame} {ahead : List α}

/-- The conversation goes on with the next header, or the end, from where the last entry
    has left the receiver. -/
theorem Follows.announce (F : Follows env ops R) {v : Except (KikoError × Disk) Loop}
    (hr : R.Shows r v)
    (hfinal : final = v.bind (verdict (env.transferEntries sources))) :
    Talk R.feed (Expect env R final) (ops.announce sources).2 r (ops.announce sources).1 [] := by
  have hsingle {a : α} {w : Wait env.prims} (h : Expect env R final w (R.feed r a).1 (R.feed r a).2) :
      Talk R.feed (Expect env R final) w r [a] [] :=
    ⟨by simpa using h, quiet_singleton r a, fun hne => absurd rfl hne⟩
  match v with
  -- The last entry has ended in an error: the receiver takes the next header or `Done`
  -- and stays there.
  | .error (e, d) =>
    obtain ⟨l, rfl, rfl⟩ := hr
    have hfail : R.Failed final (R.thrown e l) [] := ⟨e, l, rfl, rfl, hfinal⟩
    cases sources with
    | nil =>
      refine hsingle ?_
      rw [F.absorbs]
      exact .inr hfail
    | cons source rest =>
      refine hsingle ?_
      rw [F.absorbs]
      exact .inr hfail
  | .ok l =>
    obtain rfl : r = R.idle l := hr
    cases sources with
    -- no source is left: `Done` closes the plan, or finds it incomplete
    | nil =>
      refine hsingle ?_
      rw [F.done]
      simp only [ReceiveEnv.transferEntries, Except.bind, verdict] at hfinal
      cases hdone : takeDone l with
      | ok _ l' =>
        rw [hdone] at hfinal
        exact .inl ⟨l', rfl, rfl, hfinal⟩
      | error e l' =>
        rw [hdone] at hfinal
        exact .inr ⟨e, l', rfl, rfl, hfinal⟩
    | cons source rest =>
      refine hsingle ?_
      rw [F.fileHeader]
      simp only [ReceiveEnv.transferEntries, Except.bind] at hfinal
      cases hhead : env.takeFileHeader (makeFileHeader source.entry) l with
      | ok p l' =>
        refine .inl ⟨l', p, rfl, rfl, takeFileHeader_offers hhead, ?_⟩
        rw [hfinal, verdict, bind_of_ok hhead]
        rfl
      | error e l' =>
        refine .inr ⟨e, l', rfl, rfl, ?_⟩
        rw [hfinal, verdict, bind_of_error hhead]

/-- **The conversation starts right.** -/
theorem Follows.talk_start (F : Follows env ops R) (sources : List (Source env.prims)) (l : Loop) :
    Talk R.feed (Expect env R (conclusion env sources l)) (ops.start sources).wait (R.idle l)
      (ops.start sources).todo [] := by
  unfold SendOps.start conclusion
  cases hman : encodeTransferManifest env.prims (sources.map (·.entry)) with
  | error e =>
    exact ⟨.inl ⟨l, rfl, rfl, rfl⟩, quiet_nil _, fun hne => absurd rfl hne⟩
  | ok text =>
    obtain ⟨hsilent, hshow⟩ := F.manifest l text
    have hsilent' : (drain R.feed (R.idle l) [ops.control (.manifest text)]).2 = [] := by
      simpa using hsilent
    exact Talk.before hsilent' (F.announce hshow (verdict_bind _ _ l))

/-- **A reply that is read is the one that was waited for**, and the conversation goes on
    right. -/
theorem Follows.talk_answer (F : Follows env ops R) {s s' : SendLoop env.prims α}
    (h : Talk R.feed (Expect env R final) s.wait r ahead (f :: answers))
    (hs : ops.answer s f = some s') :
    ahead = [] ∧ answers = [] ∧ (∀ e, s'.wait ≠ .thrown e) ∧
      Talk R.feed (Expect env R final) s'.wait r s'.todo [] := by
  obtain ⟨rfl, hexp⟩ := h.answered
  unfold SendOps.answer at hs
  split at hs
  next source rest htodo hwait =>
    rw [hwait] at hexp
    rcases hexp with ⟨l, p, rfl, hans, hoff, hfinal⟩ | ⟨_, _, -, hnil, -⟩
    · obtain ⟨rfl, rfl⟩ := List.cons.inj hans
      rw [onResume_eq hoff] at hs
      obtain rfl := Option.some.inj hs
      refine ⟨rfl, rfl, fun e => ?_, ?_⟩
      · cases rest <;> simp [SendOps.announce]
      · obtain ⟨hsilent, hshow⟩ := F.entry l p source hoff
        exact Talk.before hsilent (F.announce hshow (hfinal.trans (verdict_bind _ _ l)))
    · cases hnil
  next htodo hwait =>
    rw [hwait] at hexp
    rcases hexp with ⟨l, rfl, hans, hfinal⟩ | ⟨_, _, -, hnil, -⟩
    · obtain ⟨rfl, rfl⟩ := List.cons.inj hans
      obtain rfl := Option.some.inj hs
      refine ⟨rfl, rfl, by simp, ?_⟩
      dsimp only
      rw [htodo]
      exact ⟨⟨l, rfl, rfl, hfinal⟩, quiet_nil _, fun hne => absurd rfl hne⟩
    · cases hnil
  next => cases hs

/-- A receiver that is over is where the transfer ends. -/
theorem Follows.expect_view (F : Follows env ops R) {w : Wait env.prims}
    (h : Expect env R final w r answers) :
    match R.view r with
    | .thrown e l => final = .error (e, l.disk)
    | .finished l => final = .ok l
    | _ => True := by
  have hfailed (h : R.Failed final r answers) :
      match R.view r with
      | .thrown e l => final = .error (e, l.disk)
      | .finished l => final = .ok l
      | _ => True := by
    obtain ⟨e, l, rfl, -, hfinal⟩ := h
    rw [F.view_thrown]
    exact hfinal
  cases w with
  | resume source rest =>
    rcases h with ⟨l, p, rfl, -⟩ | h
    · rw [F.view_await]
      trivial
    · exact hfailed h
  | ack =>
    rcases h with ⟨l, rfl, -, hfinal⟩ | h
    · rw [F.view_finished]
      exact hfinal
    · exact hfailed h
  | returned =>
    obtain ⟨l, rfl, -, hfinal⟩ := h
    rw [F.view_finished]
    exact hfinal
  | thrown e =>
    rcases h with ⟨l, rfl, -⟩ | h
    · rw [F.view_idle]
      trivial
    · exact hfailed h

/-- Once all that is ahead is taken, a receiver is between two entries or over. -/
theorem Follows.expect_ne_busy (F : Follows env ops R) {w : Wait env.prims}
    (h : Expect env R final w r answers) : R.view r ≠ .busy := by
  have hfailed (h : R.Failed final r answers) : R.view r ≠ .busy := by
    obtain ⟨e, l, rfl, -⟩ := h
    rw [F.view_thrown]
    exact View.noConfusion
  cases w with
  | resume source rest =>
    rcases h with ⟨l, p, rfl, -⟩ | h
    · rw [F.view_await]
      exact View.noConfusion
    · exact hfailed h
  | ack =>
    rcases h with ⟨l, rfl, -⟩ | h
    · rw [F.view_finished]
      exact View.noConfusion
    · exact hfailed h
  | returned =>
    obtain ⟨l, rfl, -⟩ := h
    rw [F.view_finished]
    exact View.noConfusion
  | thrown e =>
    rcases h with ⟨l, rfl, -⟩ | h
    · rw [F.view_idle]
      exact View.noConfusion
    · exact hfailed h

/-- **Where a receiver is over, the transfer is.** -/
theorem Follows.over (F : Follows env ops R) {w : Wait env.prims}
    (h : Talk R.feed (Expect env R final) w r ahead answers) :
    (∀ e l, r = R.thrown e l → final = .error (e, l.disk)) ∧
      (∀ l, r = R.finished l → final = .ok l) := by
  refine ⟨fun e l hr => ?_, fun l hr => ?_⟩
  · subst hr
    have hexp := h.agree
    rw [(drain_absorbed (F.absorbs e l) ahead).1] at hexp
    have := F.expect_view hexp
    rwa [F.view_thrown] at this
  · subst hr
    have hexp := h.agree
    rw [(drain_absorbed (F.absorbs_finished l) ahead).1] at hexp
    have := F.expect_view hexp
    rwa [F.view_finished] at this

/-- A receiver that waits for a frame of a sender that has gone has heard nothing at all. -/
theorem gone_cases {w : Wait env.prims} (h : Talk R.feed (Expect env R final) w r [] answers)
    (hw : w.over = true) (hfin : ∀ l, r ≠ R.finished l) (hthrown : ∀ e l, r ≠ R.thrown e l) :
    ∃ l, r = R.idle l ∧ answers = [] ∧
      Talk R.feed (Expect env R final) w (R.thrown streamEnded l) [] [] := by
  have hexp := h.agree
  rw [drain_nil, List.append_nil] at hexp
  cases w with
  | resume source rest => cases hw
  | ack => cases hw
  | returned =>
    obtain ⟨l, hl, -⟩ := hexp
    exact absurd hl (hfin l)
  | thrown e =>
    rcases hexp with ⟨l, hl, hans, hfinal⟩ | ⟨e', l, hl, -⟩
    · exact ⟨l, hl, hans, .inr ⟨_, l, rfl, rfl, hfinal⟩, quiet_nil _, fun hne => absurd rfl hne⟩
    · exact absurd hl (hthrown e' l)

/-- A sender that is over hears nothing more. -/
theorem answers_of_over {w : Wait env.prims} (h : Talk R.feed (Expect env R final) w r ahead answers)
    (hw : w.over = true) : answers = [] := by
  by_contra hne
  have hexp := h.agree
  rw [h.turn hne, drain_nil, List.append_nil] at hexp
  cases w with
  | resume source rest => cases hw
  | ack => cases hw
  | returned =>
    obtain ⟨l, -, hnil, -⟩ := hexp
    exact hne hnil
  | thrown e =>
    rcases hexp with ⟨l, -, hnil, -⟩ | ⟨_, l, -, hnil, -⟩
    · exact hne hnil
    · exact hne hnil

/-- A sender that waits takes whatever comes. -/
theorem exists_answer (ops : SendOps env.prims α) {s : SendLoop env.prims α} (htodo : s.todo = []) (hw : s.wait.over = false)
    (f : Frame) : ∃ s', ops.answer s f = some s' := by
  unfold SendOps.answer
  rw [htodo]
  cases hwait : s.wait with
  | returned => rw [hwait] at hw; cases hw
  | thrown e => rw [hwait] at hw; cases hw
  | resume source rest =>
    dsimp only
    cases onResume source f <;> exact ⟨_, rfl⟩
  | ack => cases f <;> exact ⟨_, rfl⟩

/-! ## Whose turn it is

`turn_cases` is what rules out a deadlock in which each side waits for the other: with
nothing ahead the receiver has a reply to give, or it is over. -/

/-- The receiver has the word, and says what the sender waits for. -/
def Receiver.Asks (R : Receiver ρ α) (env : ReceiveEnv) : Wait env.prims → ρ → List Frame → Prop
  | .resume source _, r, answers =>
    ∃ l p, r = R.await l p ∧ answers = [.resume p.request] ∧ Offers env source l.disk.tree p
  | .ack, r, answers => ∃ l, r = R.finished l ∧ answers = [.ack]
  | _, _, _ => False

/-- Who has the word says something. -/
theorem Receiver.Asks.ne_nil {w : Wait env.prims} (h : R.Asks env w r answers) : answers ≠ [] := by
  cases w with
  | resume source rest =>
    obtain ⟨l, p, -, rfl, -⟩ := h
    exact List.cons_ne_nil _ _
  | ack =>
    obtain ⟨l, -, rfl⟩ := h
    exact List.cons_ne_nil _ _
  | returned => exact h.elim
  | thrown e => exact h.elim

/-- **Exactly one side has the word.** While neither is over, either something is ahead and
    no reply is on its way, or nothing is ahead and the reply on its way is the one the
    sender waits for. -/
theorem turn_cases {w : Wait env.prims} (h : Talk R.feed (Expect env R final) w r ahead answers)
    (hw : w.over = false ∨ ahead ≠ []) (hr : ∀ e l, r = R.thrown e l → answers ≠ []) :
    (ahead ≠ [] ∧ answers = []) ∨ (ahead = [] ∧ R.Asks env w r answers) := by
  cases ahead with
  | cons a ahead => exact .inl ⟨List.cons_ne_nil _ _, h.answers_eq⟩
  | nil =>
    have hexp := h.agree
    rw [drain_nil, List.append_nil] at hexp
    refine .inr ⟨rfl, ?_⟩
    cases w with
    | returned => simp [Wait.over] at hw
    | thrown e => simp [Wait.over] at hw
    | resume source rest =>
      rcases hexp with ⟨l, p, hlp, hans, hoff, -⟩ | ⟨e, l, hthrown, hnil, -⟩
      · exact ⟨l, p, hlp, hans, hoff⟩
      · exact absurd hnil (hr e l hthrown)
    | ack =>
      rcases hexp with ⟨l, hl, hans, -⟩ | ⟨e, l, hthrown, hnil, -⟩
      · exact ⟨l, hl, hans⟩
      · exact absurd hnil (hr e l hthrown)

end Conversation
end Kiko.Transfer
