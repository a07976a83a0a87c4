import Kiko.Note.Sync

/-!
# Convergence of two sessions, and what `synced` promises

An edit that its side still holds is either at the other side too or on its way there, in a
frame that is no older (`Covers`): the queue drops a frame only for one that supersedes it.
Once nothing is under way either document is therefore no older than the other, and the
order of edits decides the rest.

`synced` compares revisions only. That is enough, since two edits of one pad by one side
differ in their revisions, and an ack is for an edit that has been dealt with.

Settled means that nothing is under way and nothing is left to do, in either direction. The
proof does not follow the frames to their ends: it is an invariant that accounts for each
edit at every moment, and in a settled state only one account is left.
-/

set_option autoImplicit false

namespace Kiko.Note

open NoteWorkspace

variable {env : NoteEnv} {A B : NoteSession} {pipe : List NoteFrame} {frame : NoteFrame}

/-! ## Synced

From revisions to keys: an own edit that was acknowledged is known to the other side, whose
document can only have gone further. -/

theorem syncedLocked_iff {ws : NoteWorkspace} : ws.syncedLocked = true ↔
    ∀ pad revision, ws.localRevisions.lookup pad = some revision →
      ∃ acked, ws.ackedRevisions.lookup pad = some acked ∧ revision ≤ acked := by
  have hentry (pad : String) (revision : Nat) : ws.localRevisions.lookup pad = some revision ↔
      (⟨pad, revision⟩ : Sigma fun _ : String => Nat) ∈ ws.localRevisions.entries :=
    AList.mem_lookup_iff
  rw [syncedLocked, List.all_eq_true]
  constructor
  · intro h pad revision hl
    have := h ⟨pad, revision⟩ ((hentry pad revision).mp hl)
    cases ha : ws.ackedRevisions.lookup pad with
    | none => simp [ha] at this
    | some acked => exact ⟨acked, rfl, by simpa [ha] using this⟩
  · rintro h ⟨pad, revision⟩ hmem
    obtain ⟨acked, ha, hle⟩ := h pad revision ((hentry pad revision).mpr hmem)
    simpa [ha] using hle

/-- An edit whose revision has been acknowledged, or a greater one, is not ahead of the
    other side. -/
theorem Pair.acked_le {pa pb : List NoteFrame} {f : NoteFrame} {acked : Nat}
    (h : Pair env A B pa pb) (hf : f ∈ A.edited)
    (hacked : A.workspace.ackedRevisions.lookup f.padId = some acked) (hle : f.revision ≤ acked) :
    (f.key : WithBot NoteKey) ≤ B.workspace.padKey f.padId := by
  obtain ⟨g, hg, hp, rfl⟩ := h.acksB.noted f.padId acked hacked
  obtain ⟨hmade, hkey⟩ := h.there.processed g hg
  rw [hp] at hkey
  rcases hle.eq_or_lt with heq | hlt
  · rcases Nat.eq_zero_or_pos f.revision with h0 | hpos
    · -- both have started over: the other side has got an edit that had not
      refine key_le_of_revision_lt ?_
      have := h.there.arrived g hg
      rw [hp] at this
      rw [h0]
      exact this
    · obtain rfl := h.soundA.eq_of_revision hf hmade hp.symm heq hpos
      exact hkey
  · exact (WithBot.coe_le_coe.mpr (NoteFrame.key_lt_of_revision hlt).le).trans hkey

/-- **A side that is synced is.** Of every pad it has edited the other side holds a document
    that is no older than the last edit. -/
theorem synced_truthful (env : NoteEnv) (writerId : Role → String) {s : NoteSystem}
    (h : Lts.Reach (NoteSystem.step env) (NoteSystem.start writerId) s) (r : Role)
    (hsynced : (s.side r).workspace.snapshot.synced = true) (pad : String) (f : NoteFrame)
    (hf : (s.side r).latestEdit pad = some f) :
    (f.key : WithBot NoteKey) ≤ (s.side r.peer).workspace.padKey pad := by
  have hi := NoteSystem.reach_inv h r
  have hmem : f ∈ (s.side r).edited := List.mem_of_find?_eq_some hf
  obtain rfl : f.padId = pad := by simpa using List.find?_some hf
  have hlocked : (s.side r).workspace.syncedLocked = true := by
    simp only [snapshot, Bool.and_eq_true] at hsynced
    exact hsynced.2
  obtain ⟨acked, hacked, hle⟩ := syncedLocked_iff.mp hlocked f.padId f.revision
    (by rw [hi.soundA.latest, hf]; rfl)
  exact hi.acked_le hmem hacked hle

/-! ## Convergence

`Covers` is asked for each pad and each direction, and each step of either side keeps it.
When nothing is under way it says that one key is no greater than the other, twice. -/

/-- What `A` holds of a pad has come to `B`, or is on its way. -/
def Covers (A B : NoteSession) (pipe : List NoteFrame) : Prop :=
  ∀ pad, A.workspace.padKey pad ≤ B.workspace.padKey pad ∨
    ∃ f ∈ A.calls ++ pipe, onPad pad f = true ∧ A.workspace.padKey pad ≤ f.key

/-- The queue gives up a frame only for one that is no older. -/
theorem Queued.covers {box box' : List NoteFrame} {pad : String} {f : NoteFrame}
    (h : Queued frame box box')
    (hmono : ∀ q ∈ box, framesCoalesce q frame = true → onPad pad q = true →
      q.revision ≤ frame.revision → q.key ≤ frame.key)
    (hf : f = frame ∨ f ∈ box) (hon : onPad pad f = true) :
    ∃ g ∈ box', onPad pad g = true ∧ f.key ≤ g.key := by
  cases h with
  | appended h =>
    refine ⟨f, ?_, hon, le_rfl⟩
    rcases hf with rfl | hf <;> simp [*]
  | @replaced ahead behind queued h hr =>
    have hframe : onPad pad frame = onPad pad queued := (onPad_coalesce h pad).symm
    rcases hf with rfl | hf
    · exact ⟨f, by simp, hon, le_rfl⟩
    · by_cases hq : f = queued
      · subst hq
        exact ⟨frame, by simp, hframe.trans hon, hmono f (by simp) h hon hr⟩
      · refine ⟨f, ?_, hon, le_rfl⟩
        simp only [List.mem_append, List.mem_cons] at hf ⊢
        tauto
  | @superseded _ queued hm h hr =>
    rcases hf with rfl | hf
    · exact ⟨queued, hm, (onPad_coalesce h pad).trans hon, (NoteFrame.key_lt_of_revision hr).le⟩
    · exact ⟨f, hf, hon, le_rfl⟩

/-- What convergence needs besides `Pair`, of the side `A`. -/
structure Ahead (A B : NoteSession) (pipe : List NoteFrame) : Prop where
  covers : Covers A B pipe
  running : A.stopped = false
  /-- no edit has started over -/
  counted : ∀ f ∈ A.edited, 1 ≤ f.revision

namespace Ahead

variable {front box box' : List NoteFrame} {A' : NoteSession} {ws' : NoteWorkspace}

theorem edit (h : Ahead A B pipe) (he : LocallyEdited A.workspace ws' frame)
    (hlow : A.revisionOf frame.padId < 2 ^ 64 - 1) :
    Ahead { A with
      workspace := ws'
      calls := frame :: A.calls
      edited := frame :: A.edited } B pipe := by
  have hrev : frame.revision = A.revisionOf frame.padId + 1 := by
    rw [he.revision]
    exact Nat.mod_eq_of_lt (by change A.revisionOf frame.padId + 1 < _; omega)
  refine ⟨fun pad => ?_, h.running, List.forall_mem_cons.mpr ⟨by omega, h.counted⟩⟩
  by_cases hp : pad = frame.padId
  · subst hp
    refine .inr ⟨frame, by simp, by simp [onPad, he.isEdit], ?_⟩
    -- the new frame has the greater revision, so it is the document now
    rw [he.key]
    refine max_le (not_lt.mp fun hlt => ?_) le_rfl
    have := keyRevision_mono hlt.le
    rw [keyRevision_frame, hrev] at this
    exact absurd this (by change ¬ A.revisionOf frame.padId + 1 ≤ A.revisionOf frame.padId; omega)
  · simp only [he.other pad hp]
    refine (h.covers pad).imp_right ?_
    rintro ⟨f, hf, hon⟩
    refine ⟨f, ?_, hon⟩
    simp only [List.cons_append, List.mem_cons]
    exact .inr hf

/-- The other side comes further. -/
theorem peer (h : Ahead A B pipe) (hkey : ∀ pad, B.workspace.padKey pad ≤ ws'.padKey pad) :
    Ahead A { B with workspace := ws' } pipe :=
  ⟨fun pad => (h.covers pad).imp_left fun hle => hle.trans (hkey pad), h.running, h.counted⟩

/-- This side comes further, but not ahead of the other. -/
theorem receives (h : Ahead A B pipe)
    (hkey : ∀ pad, ws'.padKey pad ≤ A.workspace.padKey pad ∨ ws'.padKey pad ≤ B.workspace.padKey pad) :
    Ahead { A with workspace := ws' } B pipe := by
  refine ⟨fun pad => ?_, h.running, h.counted⟩
  rcases hkey pad with hle | hle
  · rcases h.covers pad with hc | ⟨f, hf, hon, hc⟩
    · exact .inl (hle.trans hc)
    · exact .inr ⟨f, hf, hon, hle.trans hc⟩
  · exact .inl hle

/-- A frame of `A` is taken by its queue. -/
theorem queue (h : Ahead A B (front ++ box)) (hq : Queued frame box box') (hs : Sound env A)
    (hflow : ∀ f ∈ box, isNoteEdit f = true → f ∈ A.edited)
    (hframe : isNoteEdit frame = true → frame ∈ A.edited)
    (hcalls : ∀ f ∈ A.calls, f = frame ∨ f ∈ A'.calls)
    (hws : A'.workspace = A.workspace) (hed : A'.edited = A.edited) (hrun : A'.stopped = false) :
    Ahead A' B (front ++ box') := by
  have hmono (pad : String) : ∀ q ∈ box, framesCoalesce q frame = true → onPad pad q = true →
      q.revision ≤ frame.revision → q.key ≤ frame.key := by
    intro q hq' hc hon hle
    have honf : onPad pad frame = true := (onPad_coalesce hc pad).symm.trans hon
    simp only [onPad, Bool.and_eq_true, decide_eq_true_eq] at hon honf
    have hmade := hflow q hq' hon.1
    rcases hle.eq_or_lt with heq | hlt
    · rw [hs.eq_of_revision hmade (hframe honf.1) (hon.2.trans honf.2.symm) heq (h.counted q hmade)]
    · exact (NoteFrame.key_lt_of_revision hlt).le
  refine ⟨fun pad => ?_, hrun, hed ▸ h.counted⟩
  rw [hws]
  refine (h.covers pad).imp_right ?_
  rintro ⟨f, hf, hon, hle⟩
  have htake (hf : f = frame ∨ f ∈ box) : ∃ g ∈ A'.calls ++ (front ++ box'), onPad pad g = true ∧
      A.workspace.padKey pad ≤ g.key := by
    obtain ⟨g, hg, hong, hle'⟩ := hq.covers (hmono pad) hf hon
    exact ⟨g, by simp [hg], hong, hle.trans (WithBot.coe_le_coe.mpr hle')⟩
  simp only [List.mem_append] at hf
  rcases hf with hf | hf | hf
  · rcases hcalls f hf with rfl | hf
    · exact htake (.inl rfl)
    · exact ⟨f, by simp [hf], hon, hle⟩
  · exact ⟨f, by simp [hf], hon, hle⟩
  · exact htake (.inr hf)

/-- `queue_frame`, of a frame this side's threads no longer hold. -/
theorem queueFrame {calls : List NoteFrame} {reply : Option NoteFrame}
    (h : Ahead A B (front ++ A.outgoing)) (hs : Sound env A)
    (hflow : ∀ f ∈ A.outgoing, isNoteEdit f = true → f ∈ A.edited)
    (hframe : isNoteEdit frame = true → frame ∈ A.edited)
    (hcalls : ∀ f ∈ A.calls, f = frame ∨ f ∈ calls) :
    let A' := ({ A with calls := calls, reply := reply }.queueFrame env frame).1
    A'.stopped = false → Ahead A' B (front ++ A'.outgoing) := by
  intro A' hrun
  obtain ⟨outgoing, bytes, stopped, hA', -, hq⟩ :=
    queueFrame_spec env { A with calls := calls, reply := reply } frame
  change A' = _ at hA'
  clear_value A'
  subst hA'
  rcases hq with ⟨hstop, -⟩ | ⟨-, hq⟩
  · exact absurd (hstop.symm.trans hrun) (by simp)
  · exact h.queue hq hs hflow hframe hcalls rfl rfl hrun

theorem congr_peer {B' : NoteSession} (h : Ahead A B pipe) (hws : B'.workspace = B.workspace) :
    Ahead A B' pipe :=
  ⟨fun pad => hws ▸ h.covers pad, h.running, h.counted⟩

/-- The first frame of the pipe is an edit, and `B` deals with it. -/
theorem deliver {processed : List NoteFrame} {reply : Option NoteFrame} (h : Ahead A B (frame :: pipe))
    (he : Edited B.workspace ws' frame) :
    Ahead A { B with workspace := ws', processed := processed, reply := reply } pipe := by
  refine ⟨fun pad => ?_, h.running, h.counted⟩
  rcases h.covers pad with hle | ⟨f, hf, hon, hle⟩
  · exact .inl (hle.trans (he.key_le pad))
  · simp only [List.mem_append, List.mem_cons] at hf
    rcases hf with hf | rfl | hf
    · exact .inr ⟨f, by simp [hf], hon, hle⟩
    · obtain ⟨-, rfl⟩ : isNoteEdit f = true ∧ f.padId = pad := by simpa [onPad] using hon
      exact .inl (hle.trans he.frame_le)
    · exact .inr ⟨f, by simp [hf], hon, hle⟩

/-- The first frame of the pipe is no edit. -/
theorem drop (h : Ahead A B (frame :: pipe)) (hedit : isNoteEdit frame = false) : Ahead A B pipe := by
  refine ⟨fun pad => (h.covers pad).imp_right fun ⟨f, hf, hon, hle⟩ => ⟨f, ?_, hon, hle⟩, h.running,
    h.counted⟩
  simp only [List.mem_append, List.mem_cons] at hf ⊢
  rcases hf with hf | rfl | hf
  · exact .inl hf
  · simp [onPad, hedit] at hon
  · exact .inr hf

end Ahead

namespace NoteSystem

/-- What convergence is promised for: no revision has come to the end of its range, and the
    step does not overflow a queue. -/
def Within (env : NoteEnv) (s : NoteSystem) (l : NoteLabel) : Prop :=
  (∀ r pad, (s.side r).revisionOf pad < 2 ^ 64 - 1) ∧
    ∀ s', step env s l = some s' → ∀ r, (s'.side r).stopped = false

/-- Both sides, seen from either. -/
def Converging (s : NoteSystem) : Prop := ∀ r, Ahead (s.side r) (s.side r.peer) (s.underWay r)

variable {s s' : NoteSystem} {l : NoteLabel}

theorem converging_start (writerId : Role → String) : Converging (start writerId) := by
  refine fun r => ⟨fun pad => .inl (le_of_eq ?_), rfl, by simp [start]⟩
  by_cases hp : pad = "main"
  · subst hp
    simp only [start, NoteWorkspace.new, put, padKey, AList.lookup_insert]
    rfl
  · simp only [start, NoteWorkspace.new, put, padKey, AList.lookup_insert_ne hp]
    rfl

theorem Converging.of_side (r : Role) (h : Ahead (s.side r) (s.side r.peer) (s.underWay r))
    (hp : Ahead (s.side r.peer) (s.side r) (s.underWay r.peer)) : Converging s :=
  Role.forall_of_peer h (by simpa using hp)

/-- A step that takes a frame to a queue, with what the threads held of it. -/
theorem converging_queue {r : Role} {calls : List NoteFrame} {reply : Option NoteFrame}
    (hi : Inv env s) (h : Converging s)
    (hframe : isNoteEdit frame = true → frame ∈ (s.side r).edited)
    (hcalls : ∀ f ∈ (s.side r).calls, f = frame ∨ f ∈ calls)
    (hrun : ({ s.side r with calls := calls, reply := reply }.queueFrame env frame).1.stopped = false) :
    Converging (s.setSide r
      ({ s.side r with calls := calls, reply := reply }.queueFrame env frame).1) := by
  have hr := h r
  have hp := h r.peer
  rw [underWay] at hr
  simp only [Role.peer_peer] at hp
  refine .of_side r ?_ ?_
  · simpa [underWay] using hr.queueFrame (hi r).soundA
      (fun f hf => (hi r).there.made f (by simp [underWay, hf])) hframe hcalls hrun
  · simpa [underWay] using hp.congr_peer (queueFrame_workspace env { s.side r with
      calls := calls
      reply := reply } frame)

/-- The reader of `A` deals with a frame. -/
theorem receive_ahead {pa pb : List NoteFrame} (now : Nat) (hi : Pair env A B pa (frame :: pb))
    (hA : Ahead A B pa) (hB : Ahead B A (frame :: pb)) :
    Ahead (A.receive now frame) B pa ∧ Ahead B (A.receive now frame) pb := by
  have hsame {ws' : NoteWorkspace} (hdocs : ws'.documents = A.workspace.documents) (pad : String) :
      ws'.padKey pad = A.workspace.padKey pad := by rw [padKey, padKey, hdocs]
  by_cases hack : frame.type = .ack
  · have hedit : isNoteEdit frame = false := by simp [isNoteEdit, hack]
    have hdocs := (acknowledge_keeps hi.soundA.wf frame).2.1
    rw [NoteSession.receive, if_pos hack]
    exact ⟨hA.receives fun pad => .inl (hsame hdocs pad).le,
      (hB.drop hedit).peer fun pad => (hsame hdocs pad).ge⟩
  rw [NoteSession.receive, if_neg hack]
  cases hedit : isNoteEdit frame with
  | false =>
    simp only [hedit, NoteWorkspace.applyRemote, Bool.false_eq_true, if_false]
    exact ⟨hA, hB.drop hedit⟩
  | true =>
    have hmade := hi.back.made frame (by simp) hedit
    have he := applyRemote_edited hi.soundA.wf hedit (hi.symm.padTitle hmade)
    simp only [if_true]
    refine ⟨?_, hB.deliver he⟩
    have := hA.receives (fun pad => ?_ : ∀ pad, (A.workspace.applyRemote frame).1.padKey pad ≤ _ ∨ _)
    · exact ⟨this.covers, this.running, this.counted⟩
    · by_cases hp : pad = frame.padId
      · subst hp
        rw [he.key]
        rcases max_choice (A.workspace.padKey frame.padId) (frame.key : WithBot NoteKey) with hm | hm
        · exact .inl hm.le
        · exact .inr (hm.le.trans (hi.soundB.edited frame hmade).2.2)
      · exact .inl (he.other pad hp).le

/-- **The step lemma** of convergence. -/
theorem converging_step (hi : Inv env s) (h : Converging s) (hw : Within env s l)
    (hs : step env s l = some s') : Converging s' := by
  have hrun := hw.2 s' hs
  cases l with
  -- the edit is in a call of its thread, and is under way from there
  | edit r now op =>
    simp only [step] at hs
    split at hs
    case isFalse => cases hs
    case isTrue =>
      split at hs
      case h_1 =>
        obtain rfl := Option.some.inj hs
        exact h
      case h_2 ws' frame hok =>
        obtain rfl := Option.some.inj hs
        have he := edit_spec (hi r).soundA.wf hok
        have hp := h r.peer
        simp only [Role.peer_peer] at hp
        refine .of_side r ?_ ?_
        · simpa [underWay] using (h r).edit he (hw.1 r _)
        · rw [setSide_peer, setSide_self]
          exact Ahead.congr_peer (B := { s.side r with workspace := ws' })
            (by simpa [underWay] using hp.peer he.key_le) rfl
  -- another pad is shown, and no key changes
  | selectPad r padId =>
    obtain rfl := Option.some.inj hs
    obtain ⟨-, hdocs, -, -⟩ := selectPad_keeps (hi r).soundA.wf padId
    have hkey (pad : String) : ((s.side r).workspace.selectPad padId).1.padKey pad =
        (s.side r).workspace.padKey pad := by rw [padKey, padKey, hdocs]
    have hp := h r.peer
    simp only [Role.peer_peer] at hp
    refine .of_side r ?_ ?_
    · simpa [underWay] using (h r).receives fun pad => .inl (hkey pad).le
    · simpa [underWay] using hp.peer fun pad => (hkey pad).ge
  -- from the call into the queue, or nowhere when the session stops
  | queueEdit r i =>
    simp only [step] at hs
    split at hs
    case h_2 => cases hs
    case h_1 frame hget =>
      obtain rfl := Option.some.inj hs
      have hr := hrun r
      rw [setSide_self] at hr
      refine converging_queue hi h (fun _ => (hi r).soundA.calls frame (List.mem_of_getElem? hget))
        (fun f hf => ?_) hr
      rw [List.mem_eraseIdx_iff_getElem?]
      obtain ⟨j, hj⟩ := List.getElem?_of_mem hf
      by_cases hij : j = i
      · subst hij
        rw [hj] at hget
        exact .inl (Option.some.inj hget)
      · exact .inr ⟨j, hij, hj⟩
  | queueReply r =>
    simp only [step] at hs
    split at hs
    case h_2 => cases hs
    case h_1 frame hreply =>
      obtain rfl := Option.some.inj hs
      have hr := hrun r
      rw [setSide_self] at hr
      obtain ⟨hack, -⟩ := (hi r).acksA.reply frame hreply
      exact converging_queue hi h (fun he => absurd he (by simp [isNoteEdit, hack]))
        (fun f hf => .inr hf) hr
  -- from the queue into the hand of the sender thread
  | take r =>
    simp only [step] at hs
    split at hs
    case h_2 => cases hs
    case h_1 frame rest _ hsend hout =>
      obtain rfl := Option.some.inj hs
      have hr := h r
      have hp := h r.peer
      simp only [underWay, hsend, hout] at hr
      simp only [Role.peer_peer] at hp
      refine .of_side r ?_ ?_
      · simpa [underWay] using (⟨hr.covers, hr.running, hr.counted⟩ : Ahead { s.side r with
          outgoing := rest
          outgoingBytes := (s.side r).outgoingBytes - env.queuedFrameBytes frame
          sending := some frame } _ _)
      · rw [setSide_peer, setSide_self]
        exact Ahead.congr_peer (B := s.side r) (by simpa [underWay] using hp) rfl
  | send r =>
    simp only [step] at hs
    split at hs
    case h_2 => cases hs
    case h_1 frame hsend =>
      obtain rfl := Option.some.inj hs
      have hr := h r
      have hp := h r.peer
      simp only [underWay, hsend] at hr
      simp only [Role.peer_peer] at hp
      refine .of_side r ?_ ?_
      · simpa [underWay] using (⟨hr.covers, hr.running, hr.counted⟩ : Ahead { s.side r with
          sending := none } _ _)
      · exact Ahead.congr_peer (B := s.side r) (by simpa [underWay] using hp) (by simp)
  | receive r now =>
    simp only [step] at hs
    split at hs
    case h_2 => cases hs
    case h_1 frame rest hreply hwire =>
      obtain rfl := Option.some.inj hs
      have hr := h r
      have hp := h r.peer
      have hpair := hi r
      simp only [underWay, hwire, Role.peer_peer, List.cons_append] at hr hp hpair
      obtain ⟨hA, hB⟩ := receive_ahead now hpair hr hp
      refine .of_side r ?_ ?_
      · simpa [underWay, Function.update_of_ne (Role.peer_ne r).symm] using hA
      · simpa [underWay] using hB

/-- **Two sessions converge.** Whenever nothing is under way both hold the same documents. -/
theorem notes_converge (env : NoteEnv) (writerId : Role → String) {s : NoteSystem}
    (h : Lts.ReachUnder (step env) (Within env) (start writerId) s) (hs : s.Settled) (r : Role)
    (pad : String) :
    (s.side r).workspace.documents.lookup pad = (s.side r.peer).workspace.documents.lookup pad := by
  have hconv : Converging s := h.invariant_with (fun hr => reach_inv hr.reach)
    (converging_start writerId) fun hi _ hc hw hstep => converging_step hi hc hw hstep
  have hle (r : Role) : (s.side r).workspace.padKey pad ≤ (s.side r.peer).workspace.padKey pad := by
    obtain ⟨hcalls, hout, hsend, -, hwire⟩ := hs r
    rcases (hconv r).covers pad with hle | ⟨f, hf, -⟩
    · exact hle
    · simp [underWay, hcalls, hout, hsend, hwire] at hf
  have hkey := le_antisymm (hle r) (by simpa using hle r.peer)
  have hi := reach_inv h.reach r
  unfold padKey at hkey
  cases hA : (s.side r).workspace.documents.lookup pad with
  | none =>
    rw [hA] at hkey
    exact (Option.map_eq_none_iff.mp hkey.symm).symm
  | some d =>
    rw [hA] at hkey
    obtain ⟨d', hB, hd⟩ := Option.map_eq_some_iff.mp hkey.symm
    obtain ⟨hp, ht⟩ := hi.soundA.wf.documents pad d hA
    obtain ⟨hp', ht'⟩ := hi.soundB.wf.documents pad d' hB
    rw [hB, NoteDocument.eq_of_key hd.symm (hp.trans hp'.symm) (ht.unique ht')]

/-! ## A run in which both sides edit -/

instance (s : NoteSystem) : Decidable s.Settled :=
  decidable_of_iff
    (∀ r ∈ [Role.sender, .receiver], (s.side r).calls = [] ∧ (s.side r).outgoing = [] ∧
      (s.side r).sending = none ∧ (s.side r).reply = none ∧ s.wire r = [])
    ⟨fun h r => h r (by cases r <;> simp), fun h r _ => h r⟩

theorem within_iff : Within env s l ↔
    (∀ r ∈ [Role.sender, .receiver], ∀ e ∈ (s.side r).workspace.documents.entries,
      e.2.revision < 2 ^ 64 - 1) ∧
    ∀ s' ∈ step env s l, ∀ r ∈ [Role.sender, .receiver], (s'.side r).stopped = false := by
  have hr (r : Role) : r ∈ [Role.sender, .receiver] := by cases r <;> simp
  have hentry (ws : NoteWorkspace) : (∀ pad, keyRevision (ws.padKey pad) < 2 ^ 64 - 1) ↔
      ∀ e ∈ ws.documents.entries, e.2.revision < 2 ^ 64 - 1 := by
    constructor
    · rintro h ⟨pad, d⟩ he
      have := h pad
      rwa [padKey, AList.mem_lookup_iff.mpr he] at this
    · intro h pad
      unfold padKey
      cases hl : ws.documents.lookup pad with
      | none => exact Nat.pos_of_ne_zero (by decide)
      | some d => exact h ⟨pad, d⟩ (AList.mem_lookup_iff.mp hl)
  constructor
  · rintro ⟨h₁, h₂⟩
    exact ⟨fun r _ => (hentry _).mp (h₁ r), fun s' hs r _ => h₂ s' hs r⟩
  · rintro ⟨h₁, h₂⟩
    exact ⟨fun r => (hentry _).mpr (h₁ r (hr r)), fun s' hs r => h₂ s' hs r (hr r)⟩

instance (s : NoteSystem) (l : NoteLabel) : Decidable (Within env s l) :=
  decidable_of_iff _ within_iff.symm

def sampleEnv : NoteEnv where
  queuedFrameBytes f := 256 + f.text.utf8ByteSize
  threads := 8
  threads_lt := by decide

def sampleWriter : Role → String
  | .sender => "writer-a"
  | .receiver => "writer-b"

/-- Both sides edit the first pad, and one opens another. -/
def sampleEdits : List NoteLabel :=
  [.edit .sender 10 (.updateActive "left"), .edit .receiver 11 (.updateActive "right"),
    .edit .sender 12 .createPad, .queueEdit .sender 0, .queueEdit .sender 0, .queueEdit .receiver 0]

/-- One frame of a side goes over, and its ack is queued when it is an edit. -/
def sampleHop (r : Role) (isEdit : Bool) : List NoteLabel :=
  [.take r, .send r, .receive r.peer 20] ++ if isEdit then [.queueReply r.peer] else []

def sampleExchange : List NoteLabel :=
  sampleEdits ++ sampleHop .sender true ++ sampleHop .sender true ++ sampleHop .receiver true ++
    sampleHop .receiver false ++ sampleHop .receiver false ++ sampleHop .sender false

/-- The sessions settle, and agree. -/
theorem notes_converge_sample : ∃ s,
    Lts.ReachUnder (step sampleEnv) (Within sampleEnv) (start sampleWriter) s ∧ s.Settled ∧
      (s.side .sender).workspace.documents.lookup "main" =
        (s.side .receiver).workspace.documents.lookup "main" := by
  obtain ⟨s, hr, hs⟩ := Lts.ReachUnder.exists_of_run (step sampleEnv) (Within sampleEnv)
    (start sampleWriter) sampleExchange (fun s => decide s.Settled) (by decide +kernel)
    (by decide +kernel)
  have hs : s.Settled := of_decide_eq_true hs
  exact ⟨s, hr, hs, notes_converge sampleEnv sampleWriter hr hs .sender "main"⟩

/-- The first side is synced once both acks are in. -/
theorem synced_truthful_sample : ∃ (s : NoteSystem) (f : NoteFrame),
    (s.side .sender).workspace.snapshot.synced = true ∧
      (s.side .sender).latestEdit "pad-2" = some f ∧
      (f.key : WithBot NoteKey) ≤ (s.side .receiver).workspace.padKey "pad-2" := by
  obtain ⟨s, hr, hs⟩ := Lts.Reach.exists_of_run (step sampleEnv) (start sampleWriter) sampleExchange
    (fun s => (s.side .sender).workspace.snapshot.synced &&
      ((s.side .sender).latestEdit "pad-2").isSome) (by decide +kernel)
  rw [Bool.and_eq_true] at hs
  obtain ⟨f, hf⟩ := Option.isSome_iff_exists.mp hs.2
  exact ⟨s, f, hs.1, hf, synced_truthful sampleEnv sampleWriter hr .sender hs.1 "pad-2" f hf⟩

end NoteSystem

end Kiko.Note
