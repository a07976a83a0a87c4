import Kiko.Note.Session

/-!
# What two sessions know of each other

Three invariants, the first of one side and the others of a direction, from the side `A` to
the side `B`:

* `Sound`: a side's edits, and what its workspace remembers of them;
* `Flow`: every edit on its way, or dealt with at the other end, is one that `A` has made;
* `Acks`: every ack on its way back, or noted, is for an edit that `B` has dealt with.

They hold in every run, also after a revision has reached `2 ^ 64 - 1` and its successor is
0. That case costs the last three fields of `Flow`: the first edit of a pad to be queued has
a revision of at least 1, since fewer threads are inside an edit than it takes to count up
to the end.
-/

set_option autoImplicit false

namespace Kiko.Note

open NoteWorkspace

variable {env : NoteEnv} {A B : NoteSession} {pipe : List NoteFrame} {frame : NoteFrame}

namespace NoteSession

/-- The last edit this side has made of a pad. -/
def latestEdit (s : NoteSession) (pad : String) : Option NoteFrame :=
  s.edited.find? fun f => f.padId = pad

/-- How far a pad has come, by its revision alone. -/
def revisionOf (s : NoteSession) (pad : String) : Nat := keyRevision (s.workspace.padKey pad)

/-- The edits of one pad that have yet to be queued. -/
def callsOn (s : NoteSession) (pad : String) : List NoteFrame := s.calls.filter fun f => f.padId = pad

end NoteSession

/-- An edit of this pad. -/
def onPad (pad : String) (f : NoteFrame) : Bool := isNoteEdit f && f.padId = pad

/-- A frame of a key not above a pad's has a revision not above the pad's. -/
theorem revision_le_of_key_le {pad : String} (h : (frame.key : WithBot NoteKey) ≤ A.workspace.padKey pad) :
    frame.revision ≤ A.revisionOf pad :=
  keyRevision_mono h

theorem key_le_of_revision_lt {K : WithBot NoteKey} (h : frame.revision < keyRevision K) :
    (frame.key : WithBot NoteKey) ≤ K := by
  by_contra hlt
  have := keyRevision_mono (not_le.mp hlt).le
  exact absurd h (not_lt.mpr this)

theorem keyRevision_max (a b : WithBot NoteKey) :
    keyRevision (max a b) = max (keyRevision a) (keyRevision b) :=
  keyRevision_mono.map_max

/-- What a side knows of its own edits. -/
structure Sound (env : NoteEnv) (A : NoteSession) : Prop where
  wf : A.workspace.Wf
  edited : ∀ f ∈ A.edited, isNoteEdit f = true ∧ PadTitle f.padId f.title ∧
    (f.key : WithBot NoteKey) ≤ A.workspace.padKey f.padId
  /-- no two edits of a pad share a revision, unless they have started over -/
  distinct : A.edited.Pairwise fun f g =>
    f.padId = g.padId → f.revision = g.revision → f.revision = 0
  latest : ∀ pad, A.workspace.localRevisions.lookup pad = (A.latestEdit pad).map (·.revision)
  calls : ∀ f ∈ A.calls, f ∈ A.edited
  calls_le : A.calls.length ≤ env.threads
  bound : ∀ pad, A.revisionOf pad < 2 ^ 64
  /-- an edit that has started over was made of a document at the last revision -/
  wrapped : ∀ f ∈ A.edited, f.revision = 0 → A.revisionOf f.padId = 2 ^ 64 - 1

theorem keyRevision_new (writerId pad : String) :
    keyRevision ((NoteWorkspace.new writerId).padKey pad) = 0 := by
  by_cases hp : pad = "main"
  · rw [hp, padKey, NoteWorkspace.new, put, AList.lookup_insert]
    rfl
  · rw [padKey, NoteWorkspace.new, put, AList.lookup_insert_ne hp]
    rfl

namespace Sound

theorem start (writerId : String) : Sound env { workspace := NoteWorkspace.new writerId } where
  wf := wf_new writerId
  edited := by simp
  distinct := .nil
  latest _ := rfl
  calls := by simp
  calls_le := Nat.zero_le _
  bound pad := (keyRevision_new writerId pad).le.trans_lt (Nat.two_pow_pos 64)
  wrapped := by simp

theorem eq_of_revision (h : Sound env A) {f g : NoteFrame} (hf : f ∈ A.edited) (hg : g ∈ A.edited)
    (hp : f.padId = g.padId) (hr : f.revision = g.revision) (hpos : 1 ≤ f.revision) : f = g := by
  let R (a b : NoteFrame) : Prop := a.padId = b.padId → a.revision = b.revision →
    1 ≤ a.revision → a = b
  have hsymm : Std.Symm R := ⟨fun a b hab hp hr hpos => (hab hp.symm hr.symm (hr ▸ hpos)).symm⟩
  have hpair : A.edited.Pairwise R := h.distinct.imp fun hab hp hr hpos => by
    have := hab hp hr
    omega
  exact hpair.forall_of_forall (fun a _ _ _ _ => rfl) hf hg hp hr hpos

theorem revision_le (h : Sound env A) (hf : frame ∈ A.edited) :
    frame.revision ≤ A.revisionOf frame.padId :=
  revision_le_of_key_le (h.edited frame hf).2.2

/-- An edit of this side. -/
theorem edit {ws' : NoteWorkspace} (h : Sound env A) (he : LocallyEdited A.workspace ws' frame)
    (hroom : A.calls.length < env.threads) :
    Sound env { A with
      workspace := ws'
      calls := frame :: A.calls
      edited := frame :: A.edited } where
  wf := he.wf
  edited := by
    intro f hf
    rcases List.mem_cons.mp hf with rfl | hf
    · exact ⟨he.isEdit, he.padTitle, he.frame_le⟩
    · obtain ⟨h₁, h₂, h₃⟩ := h.edited f hf
      exact ⟨h₁, h₂, h₃.trans (he.key_le _)⟩
  distinct := by
    refine List.pairwise_cons.mpr ⟨fun g hg hp hr => ?_, h.distinct⟩
    -- the new revision is one more than the document's, or 0
    have hle : g.revision ≤ A.revisionOf frame.padId := hp ▸ h.revision_le hg
    have hb := h.bound frame.padId
    have hrev := he.revision
    change frame.revision = (A.revisionOf frame.padId + 1) % 2 ^ 64 at hrev
    omega
  latest := by
    intro pad
    change ws'.localRevisions.lookup pad = _
    rw [he.local_, NoteSession.latestEdit]
    by_cases hp : frame.padId = pad
    · subst hp
      simp
    · rw [AList.lookup_insert_ne (Ne.symm hp), List.find?_cons_of_neg (by simpa using hp)]
      exact h.latest pad
  calls := List.forall_mem_cons.mpr ⟨by simp, fun f hf => List.mem_cons_of_mem _ (h.calls f hf)⟩
  calls_le := hroom
  bound := by
    intro pad
    change keyRevision (ws'.padKey pad) < _
    by_cases hp : pad = frame.padId
    · subst hp
      rw [he.key, keyRevision_max, keyRevision_frame, he.revision]
      exact max_lt (h.bound _) (Nat.mod_lt _ (Nat.two_pow_pos 64))
    · rw [he.other pad hp]
      exact h.bound pad
  wrapped := by
    intro f hf h0
    change keyRevision (ws'.padKey f.padId) = _
    have hmono := keyRevision_mono (he.key_le f.padId)
    rcases List.mem_cons.mp hf with rfl | hf
    · have hb := h.bound f.padId
      have hrev := he.revision
      change f.revision = (A.revisionOf f.padId + 1) % 2 ^ 64 at hrev
      rw [he.key, keyRevision_max, keyRevision_frame, h0, max_eq_left (Nat.zero_le _)]
      change A.revisionOf f.padId = _
      omega
    · by_cases hp : f.padId = frame.padId
      · rw [hp, he.key, keyRevision_max, keyRevision_frame, he.revision]
        have hlast := h.wrapped f hf h0
        change _ = 2 ^ 64 - 1 at hlast
        rw [hp] at hlast
        change max (A.revisionOf frame.padId) _ = _
        rw [hlast]
        exact max_eq_left (Nat.le_sub_one_of_lt (Nat.mod_lt _ (Nat.two_pow_pos 64)))
      · rw [he.other f.padId hp]
        exact h.wrapped f hf h0

/-- A workspace whose documents have only come further, with this side's edits as they were. -/
theorem workspace {ws' : NoteWorkspace} (h : Sound env A) (wf : ws'.Wf)
    (hlocal : ws'.localRevisions = A.workspace.localRevisions)
    (hkey : ∀ pad, A.workspace.padKey pad ≤ ws'.padKey pad)
    (hbound : ∀ pad, keyRevision (ws'.padKey pad) < 2 ^ 64) :
    Sound env { A with workspace := ws' } :=
  { h with
    wf := wf
    edited := fun f hf => ⟨(h.edited f hf).1, (h.edited f hf).2.1, (h.edited f hf).2.2.trans (hkey _)⟩
    latest := fun pad => hlocal ▸ h.latest pad
    bound := hbound
    wrapped := fun f hf h0 => by
      have hlast := h.wrapped f hf h0
      have hmono : A.revisionOf f.padId ≤ keyRevision (ws'.padKey f.padId) := keyRevision_mono (hkey _)
      have hb := hbound f.padId
      change keyRevision (ws'.padKey f.padId) = _
      omega }

end Sound

/-! ## From one side to the other

What `A` has edited and `B` does not have is in a call, in the queue, in the sender's hand
or on the wire. A frame may be replaced in the queue, by a later one of the same pad, which
carries more. -/

/-- The edits of `A` on their way to `B`, in `pipe`, and at `B`. -/
structure Flow (A B : NoteSession) (pipe : List NoteFrame) : Prop where
  made : ∀ f ∈ pipe, isNoteEdit f = true → f ∈ A.edited
  processed : ∀ f ∈ B.processed, f ∈ A.edited ∧ (f.key : WithBot NoteKey) ≤ B.workspace.padKey f.padId
  /-- as long as nothing of a pad has been queued, each of its revisions is still in a thread -/
  stuck : ∀ pad, A.stopped = true ∨ 1 ≤ B.revisionOf pad ∨ pipe.any (onPad pad) = true ∨
    A.revisionOf pad ≤ (A.callsOn pad).length
  first : ∀ pad, 1 ≤ B.revisionOf pad ∨ ∀ f, pipe.find? (onPad pad) = some f → 1 ≤ f.revision
  arrived : ∀ f ∈ B.processed, 1 ≤ B.revisionOf f.padId

namespace Flow

theorem edit {ws' : NoteWorkspace} (h : Flow A B pipe) (he : LocallyEdited A.workspace ws' frame) :
    Flow { A with
      workspace := ws'
      calls := frame :: A.calls
      edited := frame :: A.edited } B pipe where
  made f hf hedit := List.mem_cons_of_mem _ (h.made f hf hedit)
  processed f hf := ⟨List.mem_cons_of_mem _ (h.processed f hf).1, (h.processed f hf).2⟩
  stuck pad := by
    refine (h.stuck pad).imp_right (Or.imp_right (Or.imp_right fun hle => ?_))
    change keyRevision (ws'.padKey pad) ≤ ((frame :: A.calls).filter fun f => f.padId = pad).length
    by_cases hp : frame.padId = pad
    · subst hp
      rw [he.key, keyRevision_max, keyRevision_frame, he.revision, List.filter_cons_of_pos (by simp)]
      change max (A.revisionOf frame.padId) ((A.revisionOf frame.padId + 1) % 2 ^ 64) ≤
        (A.callsOn frame.padId).length + 1
      have := Nat.mod_le (A.revisionOf frame.padId + 1) (2 ^ 64)
      omega
    · rw [he.other pad (Ne.symm hp), List.filter_cons_of_neg (by simpa using hp)]
      exact hle
  first := h.first
  arrived := h.arrived

/-- The other side comes further. -/
theorem peer {ws' : NoteWorkspace} (h : Flow A B pipe)
    (hkey : ∀ pad, B.workspace.padKey pad ≤ ws'.padKey pad) :
    Flow A { B with workspace := ws' } pipe where
  made := h.made
  processed f hf := ⟨(h.processed f hf).1, (h.processed f hf).2.trans (hkey _)⟩
  stuck pad := (h.stuck pad).imp_right (Or.imp_left fun h1 => h1.trans (keyRevision_mono (hkey pad)))
  first pad := (h.first pad).imp_left fun h1 => h1.trans (keyRevision_mono (hkey pad))
  arrived f hf := (h.arrived f hf).trans (keyRevision_mono (hkey _))

/-- This side comes further by an edit of the other. -/
theorem receives {ws' : NoteWorkspace} (h : Flow A B pipe)
    (hle : ∀ pad, keyRevision (ws'.padKey pad) ≤ A.revisionOf pad ∨ 1 ≤ B.revisionOf pad) :
    Flow { A with workspace := ws' } B pipe where
  made := h.made
  processed := h.processed
  stuck pad := by
    rcases hle pad with hle | hpos
    · exact (h.stuck pad).imp_right (Or.imp_right (Or.imp_right hle.trans))
    · exact .inr (.inl hpos)
  first := h.first
  arrived := h.arrived

/-- The first edit of a pad to be queued has not started over. -/
theorem first_pos (h : Flow A B pipe) (hs : Sound env A) (hrun : A.stopped = false)
    (hf : frame ∈ A.edited) (hnone : pipe.find? (onPad frame.padId) = none) :
    1 ≤ B.revisionOf frame.padId ∨ 1 ≤ frame.revision := by
  rcases h.stuck frame.padId with hstop | hpos | hany | hle
  · rw [hrun] at hstop
    cases hstop
  · exact .inl hpos
  · rw [List.any_eq_true] at hany
    obtain ⟨g, hg, hon⟩ := hany
    exact absurd hon (List.find?_eq_none.mp hnone g hg)
  · refine .inr (Nat.one_le_iff_ne_zero.mpr fun h0 => ?_)
    -- the count of threads is less than the last revision
    have hlast := hs.wrapped frame hf h0
    have hlen : (A.callsOn frame.padId).length ≤ A.calls.length := List.length_filter_le ..
    have := hs.calls_le
    have := env.threads_lt
    omega

end Flow

theorem onPad_coalesce {queued : NoteFrame} (h : framesCoalesce queued frame = true) (pad : String) :
    onPad pad queued = onPad pad frame := by
  simp only [framesCoalesce, Bool.and_eq_true, Bool.or_eq_true, decide_eq_true_eq] at h
  obtain ⟨hp, h⟩ := h
  simp only [onPad, hp]
  rcases h with ⟨hq, hf⟩ | ⟨hq, hf⟩
  · rw [hq, hf]
  · simp [isNoteEdit, hq, hf]

section Queued

variable {queue queue' front : List NoteFrame}

/-- The queue holds nothing but what it held and the new frame. -/
theorem Queued.mem (h : Queued frame queue queue') : ∀ f ∈ queue', f = frame ∨ f ∈ queue := by
  intro f hf
  cases h with
  | appended h => simpa [or_comm] using hf
  | replaced h hr =>
    simp only [List.mem_append, List.mem_cons] at hf ⊢
    tauto
  | superseded hm h hr => exact .inr hf

/-- Every pad that has an edit in the queue, or in the new frame, has one afterwards. -/
theorem Queued.any (h : Queued frame queue queue') (pad : String) :
    queue'.any (onPad pad) = (queue.any (onPad pad) || onPad pad frame) := by
  cases h with
  | appended h => simp
  | replaced h hr =>
    simp only [List.any_append, List.any_cons, onPad_coalesce h pad]
    cases onPad pad frame <;> simp
  | @superseded _ queued hm h hr =>
    have himp : onPad pad frame = true → queue.any (onPad pad) = true := by
      intro hon
      exact List.any_eq_true.mpr ⟨queued, hm, by rwa [onPad_coalesce h pad]⟩
    cases hon : onPad pad frame
    · simp
    · simp [himp hon]

/-- The first edit of a pad only ever gives way to one of a greater revision. -/
theorem Queued.first (h : Queued frame queue queue') {pad : String} {f : NoteFrame}
    (hf : (front ++ queue').find? (onPad pad) = some f) :
    (∃ g, (front ++ queue).find? (onPad pad) = some g ∧ g.revision ≤ f.revision) ∨
      ((front ++ queue).find? (onPad pad) = none ∧ f = frame ∧ onPad pad frame = true) := by
  cases h with
  | appended h =>
    rw [← List.append_assoc, List.find?_append] at hf
    cases hg : (front ++ queue).find? (onPad pad) with
    | some g =>
      rw [hg] at hf
      obtain rfl := Option.some.inj hf
      exact .inl ⟨g, rfl, le_rfl⟩
    | none =>
      rw [hg, Option.none_or, List.find?_singleton] at hf
      split at hf
      case isTrue hon => exact .inr ⟨rfl, (Option.some.inj hf).symm, hon⟩
      case isFalse => cases hf
  | @replaced ahead behind queued h hr =>
    rw [← List.append_assoc, List.find?_append] at hf ⊢
    cases hg : (front ++ ahead).find? (onPad pad) with
    | some g =>
      rw [hg] at hf
      exact .inl ⟨g, rfl, (congrArg _ (Option.some.inj hf)).le⟩
    | none =>
      rw [hg, Option.none_or, List.find?_cons] at hf
      rw [Option.none_or, List.find?_cons, onPad_coalesce h pad]
      split at hf
      case h_1 hon =>
        obtain rfl := Option.some.inj hf
        exact .inl ⟨queued, rfl, hr⟩
      case h_2 hon => exact .inl ⟨f, hf, le_rfl⟩
  | superseded hm h hr => exact .inl ⟨f, hf, le_rfl⟩

end Queued

namespace Flow

variable {box box' front : List NoteFrame} {A' : NoteSession}

/-- A frame of `A` is taken by its queue. -/
theorem queue (h : Flow A B (front ++ box)) (hs : Sound env A) (hq : Queued frame box box')
    (hmade : isNoteEdit frame = true → frame ∈ A.edited) (hrun : A.stopped = false)
    (hws : A'.workspace = A.workspace) (hed : A'.edited = A.edited)
    (hcalls : ∀ pad, onPad pad frame = true ∨ (A.callsOn pad).length ≤ (A'.callsOn pad).length) :
    Flow A' B (front ++ box') where
  made f hf hedit := by
    rw [hed]
    rcases List.mem_append.mp hf with hf | hf
    · exact h.made f (List.mem_append_left _ hf) hedit
    · rcases hq.mem f hf with rfl | hf
      · exact hmade hedit
      · exact h.made f (List.mem_append_right _ hf) hedit
  processed f hf := hed ▸ h.processed f hf
  stuck pad := by
    simp only [List.any_append, hq.any pad, NoteSession.revisionOf, hws]
    rcases hcalls pad with hon | hlen
    · simp [hon]
    · rcases h.stuck pad with hstop | hpos | hany | hle
      · rw [hrun] at hstop
        cases hstop
      · exact .inr (.inl hpos)
      · rw [List.any_append] at hany
        refine .inr (.inr (.inl ?_))
        rw [← Bool.or_assoc, hany, Bool.true_or]
      · exact .inr (.inr (.inr (hle.trans hlen)))
  first pad := by
    rcases h.first pad with hpos | hfirst
    · exact .inl hpos
    · by_cases hnone : (front ++ box).find? (onPad pad) = none ∧ onPad pad frame = true
      · obtain ⟨hnone, hon⟩ := hnone
        obtain ⟨hedit, rfl⟩ : isNoteEdit frame = true ∧ frame.padId = pad := by simpa [onPad] using hon
        refine (h.first_pos hs hrun (hmade hedit) hnone).imp_right fun hpos f hf => ?_
        rcases hq.first hf with ⟨g, hg, -⟩ | ⟨-, rfl, -⟩
        · rw [hnone] at hg
          cases hg
        · exact hpos
      · refine .inr fun f hf => ?_
        rcases hq.first hf with ⟨g, hg, hle⟩ | ⟨hn, -, hon⟩
        · exact (hfirst g hg).trans hle
        · exact absurd ⟨hn, hon⟩ hnone
  arrived := h.arrived

/-- A session that has stopped queues no more. -/
theorem stop (h : Flow A B pipe) (hstop : A'.stopped = true) (hed : A'.edited = A.edited) :
    Flow A' B pipe where
  made := hed ▸ h.made
  processed := hed ▸ h.processed
  stuck _ := .inl hstop
  first := h.first
  arrived := h.arrived

/-- The first frame of the pipe is an edit, and `B` deals with it. -/
theorem deliver {ws' : NoteWorkspace} {reply : Option NoteFrame} (h : Flow A B (frame :: pipe))
    (hedit : isNoteEdit frame = true) (he : Edited B.workspace ws' frame) :
    Flow A { B with workspace := ws', processed := frame :: B.processed, reply := reply } pipe := by
  have hmono (pad : String) : B.revisionOf pad ≤ keyRevision (ws'.padKey pad) :=
    keyRevision_mono (he.key_le pad)
  have hnew {pad : String} (hon : onPad pad frame = true) : 1 ≤ keyRevision (ws'.padKey pad) := by
    rcases h.first pad with hpos | hfirst
    · exact hpos.trans (hmono pad)
    · obtain ⟨-, rfl⟩ : isNoteEdit frame = true ∧ frame.padId = pad := by simpa [onPad] using hon
      exact (hfirst frame (by simp [hon])).trans (keyRevision_mono he.frame_le)
  constructor
  case made => exact fun f hf => h.made f (List.mem_cons_of_mem _ hf)
  case processed =>
    refine List.forall_mem_cons.mpr ⟨⟨h.made frame (by simp) hedit, he.frame_le⟩, fun f hf => ?_⟩
    exact ⟨(h.processed f hf).1, (h.processed f hf).2.trans (he.key_le _)⟩
  case stuck =>
    intro pad
    cases hon : onPad pad frame with
    | true => exact .inr (.inl (hnew hon))
    | false =>
      have := h.stuck pad
      rw [List.any_cons, hon, Bool.false_or] at this
      exact this.imp_right (Or.imp_left fun hpos => hpos.trans (hmono pad))
  case first =>
    intro pad
    cases hon : onPad pad frame with
    | true => exact .inl (hnew hon)
    | false =>
      have := h.first pad
      rw [List.find?_cons_of_neg (by simp [hon])] at this
      exact this.imp_left fun hpos => hpos.trans (hmono pad)
  case arrived =>
    refine List.forall_mem_cons.mpr ⟨hnew (by simp [onPad, hedit]), fun f hf => ?_⟩
    exact (h.arrived f hf).trans (hmono _)

/-- The first frame of the pipe is no edit. -/
theorem drop (h : Flow A B (frame :: pipe)) (hedit : isNoteEdit frame = false) : Flow A B pipe := by
  have hon (pad : String) : onPad pad frame = false := by simp [onPad, hedit]
  refine ⟨fun f hf => h.made f (List.mem_cons_of_mem _ hf), h.processed, fun pad => ?_, fun pad => ?_,
    h.arrived⟩
  · have := h.stuck pad
    rwa [List.any_cons, hon, Bool.false_or] at this
  · have := h.first pad
    rwa [List.find?_cons_of_neg (by simp [hon])] at this

end Flow

/-! ## And back

An ack is for what was dealt with, and dealing with an edit twice is no harm, so acks need
no order. -/

/-- `B` has dealt with an edit of this pad and revision. -/
def Dealt (B : NoteSession) (pad : String) (revision : Nat) : Prop :=
  ∃ g ∈ B.processed, g.padId = pad ∧ g.revision = revision

/-- The acks of `B`: the one its reader holds, those on their way in `pipe`, and what `A` has
    noted. -/
structure Acks (A B : NoteSession) (pipe : List NoteFrame) : Prop where
  reply : ∀ f, B.reply = some f → f.type = .ack ∧ Dealt B f.padId f.revision
  sent : ∀ f ∈ pipe, f.type = .ack → Dealt B f.padId f.revision
  noted : ∀ pad revision, A.workspace.ackedRevisions.lookup pad = some revision →
    Dealt B pad revision

namespace Acks

variable {box box' front : List NoteFrame} {B' : NoteSession}

/-- A frame of `B` is taken by its queue, or is not. -/
theorem queue (h : Acks A B (front ++ box)) (hq : ∀ f ∈ box', f = frame ∨ f ∈ box)
    (hframe : frame.type = .ack → Dealt B frame.padId frame.revision)
    (hproc : B'.processed = B.processed) (hreply : B'.reply = none ∨ B'.reply = B.reply) :
    Acks A B' (front ++ box') := by
  have hdealt : Dealt B' = Dealt B := by
    unfold Dealt
    rw [hproc]
  refine ⟨fun f hf => ?_, fun f hf hack => ?_, fun pad revision hv => ?_⟩ <;> rw [hdealt]
  · rcases hreply with hr | hr
    · rw [hr] at hf
      cases hf
    · exact h.reply f (hr ▸ hf)
  · rcases List.mem_append.mp hf with hf | hf
    · exact h.sent f (List.mem_append_left _ hf) hack
    · rcases hq f hf with rfl | hf
      · exact hframe hack
      · exact h.sent f (List.mem_append_right _ hf) hack
  · exact h.noted pad revision hv

/-- `B` deals with an edit and is about to acknowledge it. -/
theorem deliver {ws' : NoteWorkspace} {now : Nat} (h : Acks A B pipe)
    (hpad : normalizedPadId frame.padId = frame.padId) :
    Acks A { B with
      workspace := ws'
      processed := frame :: B.processed
      reply := some (makeNoteAck now frame.padId frame.revision) } pipe := by
  have hmono {pad : String} {revision : Nat} (hd : Dealt B pad revision) :
      ∃ g ∈ frame :: B.processed, g.padId = pad ∧ g.revision = revision := by
    obtain ⟨g, hg, hgp⟩ := hd
    exact ⟨g, List.mem_cons_of_mem _ hg, hgp⟩
  refine ⟨fun f hf => ?_, fun f hf hack => hmono (h.sent f hf hack),
    fun pad revision hv => hmono (h.noted pad revision hv)⟩
  obtain rfl := Option.some.inj hf
  exact ⟨rfl, frame, by simp, hpad.symm, rfl⟩

/-- `A` takes an ack. -/
theorem acknowledge (h : Acks A B (frame :: pipe)) (hack : frame.type = .ack)
    (hpad : normalizedPadId frame.padId = frame.padId) :
    Acks { A with workspace := A.workspace.acknowledge frame } B pipe := by
  have hd := h.sent frame (by simp) hack
  refine ⟨h.reply, fun f hf => h.sent f (List.mem_cons_of_mem _ hf), fun pad revision hv => ?_⟩
  change (A.workspace.acknowledge frame).ackedRevisions.lookup pad = _ at hv
  rw [acknowledge_acked hack hpad] at hv
  by_cases hp : pad = frame.padId
  · subst hp
    rw [AList.lookup_insert] at hv
    obtain rfl := Option.some.inj hv
    cases hl : A.workspace.ackedRevisions.lookup frame.padId with
    | none => simpa using hd
    | some v =>
      rcases max_choice v frame.revision with hmax | hmax
      · simpa [hmax] using h.noted _ _ hl
      · simpa [hmax] using hd
  · rw [AList.lookup_insert_ne hp] at hv
    exact h.noted pad revision hv

end Acks

/-! ## Both directions

The two directions meet in the workspace, since an edit that comes in changes what the next
own edit is made on. -/

/-- Two sides, and the frames under way from `A` and from `B`. -/
structure Pair (env : NoteEnv) (A B : NoteSession) (pa pb : List NoteFrame) : Prop where
  soundA : Sound env A
  soundB : Sound env B
  there : Flow A B pa
  back : Flow B A pb
  acksB : Acks A B pb
  acksA : Acks B A pa

namespace Pair

variable {pa pb front : List NoteFrame}

theorem symm (h : Pair env A B pa pb) : Pair env B A pb pa :=
  ⟨h.soundB, h.soundA, h.back, h.there, h.acksA, h.acksB⟩

/-- A frame of this side is an edit with its pad's title. -/
theorem padTitle (h : Pair env A B pa pb) (hf : frame ∈ A.edited) :
    PadTitle frame.padId frame.title :=
  (h.soundA.edited frame hf).2.1

theorem edit {ws' : NoteWorkspace} (h : Pair env A B pa pb)
    (he : LocallyEdited A.workspace ws' frame) (hroom : A.calls.length < env.threads) :
    Pair env { A with
      workspace := ws'
      calls := frame :: A.calls
      edited := frame :: A.edited } B pa pb where
  soundA := h.soundA.edit he hroom
  soundB := h.soundB
  there := h.there.edit he
  back := { h.back.peer he.key_le with }
  acksB := { h.acksB with noted := he.acked ▸ h.acksB.noted }
  acksA := { h.acksA with }

/-- The workspace changes in nothing that counts. -/
theorem workspace {ws' : NoteWorkspace} (h : Pair env A B pa pb) (wf : ws'.Wf)
    (hdocs : ws'.documents = A.workspace.documents)
    (hlocal : ws'.localRevisions = A.workspace.localRevisions)
    (hacked : ws'.ackedRevisions = A.workspace.ackedRevisions) :
    Pair env { A with workspace := ws' } B pa pb := by
  have hkey (pad : String) : ws'.padKey pad = A.workspace.padKey pad := by rw [padKey, padKey, hdocs]
  exact
    { soundA := h.soundA.workspace wf hlocal (fun pad => (hkey pad).ge) fun pad =>
        hkey pad ▸ h.soundA.bound pad
      soundB := h.soundB
      there := h.there.receives fun pad => .inl (hkey pad ▸ le_rfl)
      back := h.back.peer fun pad => (hkey pad).ge
      acksB := { h.acksB with noted := hacked ▸ h.acksB.noted }
      acksA := { h.acksA with } }

/-- What the sender thread holds is no concern of either invariant, as long as the frames
    under way are the same. -/
theorem thread {outgoing : List NoteFrame} {bytes : Nat} {sending : Option NoteFrame}
    (h : Pair env A B pa pb) :
    Pair env { A with outgoing := outgoing, outgoingBytes := bytes, sending := sending } B pa pb where
  soundA := { h.soundA with }
  soundB := h.soundB
  there := { h.there with }
  back := { h.back with }
  acksB := { h.acksB with }
  acksA := { h.acksA with }

/-- `queue_frame`, of a frame this side's threads no longer hold. -/
theorem queueFrame {calls : List NoteFrame} {reply : Option NoteFrame}
    (h : Pair env A B (front ++ A.outgoing) pb)
    (hsub : calls.Sublist A.calls) (hreply : reply = none ∨ reply = A.reply)
    (hmade : isNoteEdit frame = true → frame ∈ A.edited)
    (hack : frame.type = .ack → Dealt A frame.padId frame.revision)
    (hcalls : ∀ pad, onPad pad frame = true ∨
      (A.callsOn pad).length ≤ (calls.filter fun f => f.padId = pad).length) :
    let A' := ({ A with calls := calls, reply := reply }.queueFrame env frame).1
    Pair env A' B (front ++ A'.outgoing) pb := by
  intro A'
  obtain ⟨outgoing, bytes, stopped, hA', hstop, hq⟩ :=
    queueFrame_spec env { A with calls := calls, reply := reply } frame
  change A' = _ at hA'
  clear_value A'
  subst hA'
  have hsound : Sound env { A with
      calls := calls
      reply := reply
      outgoing := outgoing
      outgoingBytes := bytes
      stopped := stopped } :=
    { h.soundA with
      calls := fun f hf => h.soundA.calls f (hsub.subset hf)
      calls_le := hsub.length_le.trans h.soundA.calls_le }
  have hmem : ∀ f ∈ outgoing, f = frame ∨ f ∈ A.outgoing := by
    rcases hq with ⟨-, rfl⟩ | ⟨-, hq⟩
    · exact fun f hf => .inr hf
    · exact hq.mem
  refine ⟨hsound, h.soundB, ?_, { h.back with }, { h.acksB with }, h.acksA.queue hmem hack rfl hreply⟩
  rcases hq with ⟨rfl, rfl⟩ | ⟨rfl, hq⟩
  · exact h.there.stop rfl rfl
  · have hrun : A.stopped = false := by
      by_contra hne
      exact absurd (hstop (by simpa using hne)) (by simp)
    exact h.there.queue h.soundA hq hmade hrun rfl rfl hcalls

/-- The reader deals with a frame. -/
theorem receive {now : Nat} (h : Pair env A B pa (frame :: pb)) :
    Pair env (A.receive now frame) B pa pb := by
  have hdrop (hedit : isNoteEdit frame = false) (hnoted : Acks A B pb) : Pair env A B pa pb :=
    ⟨h.soundA, h.soundB, h.there, h.back.drop hedit, hnoted, h.acksA⟩
  have hsent : Acks A B pb :=
    { h.acksB with sent := fun f hf => h.acksB.sent f (List.mem_cons_of_mem _ hf) }
  by_cases hack : frame.type = .ack
  · -- an ack: only what `A` has noted changes
    have hedit : isNoteEdit frame = false := by simp [isNoteEdit, hack]
    obtain ⟨g, hg, hgp, -⟩ := h.acksB.sent frame (by simp) hack
    have hpad : normalizedPadId frame.padId = frame.padId := by
      rw [← hgp]
      exact (h.padTitle (h.there.processed g hg).1).normalized
    obtain ⟨wf, hdocs, hlocal⟩ := acknowledge_keeps h.soundA.wf frame
    rw [NoteSession.receive, if_pos hack]
    have hkey (pad : String) : (A.workspace.acknowledge frame).padKey pad = A.workspace.padKey pad := by
      rw [padKey, padKey, hdocs]
    exact
      { soundA := h.soundA.workspace wf hlocal (fun pad => (hkey pad).ge) fun pad =>
          hkey pad ▸ h.soundA.bound pad
        soundB := h.soundB
        there := h.there.receives fun pad => .inl (hkey pad ▸ le_rfl)
        back := (h.back.drop hedit).peer fun pad => (hkey pad).ge
        acksB := h.acksB.acknowledge hack hpad
        acksA := { h.acksA with } }
  cases hedit : isNoteEdit frame with
  | false =>
    rw [NoteSession.receive, if_neg hack, NoteWorkspace.applyRemote]
    simp only [hedit, Bool.false_eq_true, if_false]
    exact hdrop hedit hsent
  | true =>
    -- an edit: the documents come further, and an ack will go back
    have hmade := h.back.made frame (by simp) hedit
    have hpt := h.symm.padTitle hmade
    have he := applyRemote_edited h.soundA.wf hedit hpt
    have hle := h.soundB.revision_le hmade
    rw [NoteSession.receive, if_neg hack]
    simp only [hedit, if_true]
    have hlocal : (A.workspace.applyRemote frame).1.localRevisions = A.workspace.localRevisions := by
      simp [NoteWorkspace.applyRemote, hedit, put]
    have hacked : (A.workspace.applyRemote frame).1.ackedRevisions = A.workspace.ackedRevisions := by
      simp [NoteWorkspace.applyRemote, hedit, put]
    have hrev (pad : String) : keyRevision ((A.workspace.applyRemote frame).1.padKey pad) ≤
        A.revisionOf pad ∨ pad = frame.padId ∧
        keyRevision ((A.workspace.applyRemote frame).1.padKey pad) =
          max (A.revisionOf pad) frame.revision := by
      by_cases hp : pad = frame.padId
      · subst hp
        exact .inr ⟨rfl, by rw [he.key, keyRevision_max]; rfl⟩
      · exact .inl (by rw [he.other pad hp]; rfl)
    have hsound := h.soundA.workspace he.wf hlocal he.key_le fun pad => by
      rcases hrev pad with hle' | ⟨rfl, heq⟩
      · exact hle'.trans_lt (h.soundA.bound pad)
      · rw [heq]
        exact max_lt (h.soundA.bound _) (hle.trans_lt (h.soundB.bound _))
    have hthere : Flow { A with workspace := (A.workspace.applyRemote frame).1 } B pa := by
      refine h.there.receives fun pad => ?_
      rcases hrev pad with hle' | ⟨rfl, heq⟩
      · exact .inl hle'
      · rcases Nat.eq_zero_or_pos frame.revision with h0 | hpos
        · exact .inl (by rw [heq, h0, max_eq_left (Nat.zero_le _)])
        · exact .inr (hpos.trans_le hle)
    exact
      { soundA := { hsound with }
        soundB := h.soundB
        there := { hthere with }
        back := h.back.deliver hedit he
        acksB := { hsent with noted := hacked ▸ hsent.noted }
        acksA := h.acksA.deliver hpt.normalized }

end Pair

namespace NoteSystem

/-- The frames under way from a side, the first to arrive first. -/
def underWay (s : NoteSystem) (r : Role) : List NoteFrame :=
  s.wire r ++ (s.side r).sending.toList ++ (s.side r).outgoing

/-- The invariant, seen from either side. -/
def Inv (env : NoteEnv) (s : NoteSystem) : Prop :=
  ∀ r, Pair env (s.side r) (s.side r.peer) (s.underWay r) (s.underWay r.peer)

variable {s s' : NoteSystem} {l : NoteLabel}

theorem inv_start (writerId : Role → String) : Inv env (start writerId) := by
  have hflow (a b : String) :
      Flow { workspace := NoteWorkspace.new a } { workspace := NoteWorkspace.new b } [] :=
    ⟨by simp, by simp, fun pad => .inr (.inr (.inr (keyRevision_new a pad).le)),
      fun pad => .inr (by simp), by simp⟩
  have hacks (a b : String) :
      Acks { workspace := NoteWorkspace.new a } { workspace := NoteWorkspace.new b } [] :=
    ⟨by simp, by simp, fun pad revision h => by cases h⟩
  exact fun r => ⟨Sound.start _, Sound.start _, hflow _ _, hflow _ _, hacks _ _, hacks _ _⟩

/-- What holds as seen from one side holds as seen from the other. -/
theorem Inv.of_side (r : Role)
    (h : Pair env (s.side r) (s.side r.peer) (s.underWay r) (s.underWay r.peer)) : Inv env s :=
  Role.forall_of_peer h (by simpa using h.symm)

@[simp] theorem setSide_self (r : Role) (session : NoteSession) :
    (s.setSide r session).side r = session := Function.update_self ..

@[simp] theorem setSide_peer (r : Role) (session : NoteSession) :
    (s.setSide r session).side r.peer = s.side r.peer := Function.update_of_ne (by simp) ..

@[simp] theorem setSide_wire (r : Role) (session : NoteSession) :
    (s.setSide r session).wire = s.wire := rfl

/-- Taking out an element that does not count leaves the count. -/
theorem filter_eraseIdx {α : Type} {l : List α} {i : ℕ} {a : α} {p : α → Bool}
    (h : l[i]? = some a) (hp : p a = false) : (l.eraseIdx i).filter p = l.filter p := by
  induction l generalizing i with
  | nil => cases h
  | cons b l ih =>
    cases i with
    | zero =>
      obtain rfl : b = a := by simpa using h
      simp [hp]
    | succ i => simp [List.filter_cons, ih (by simpa using h)]

/-- **The step lemma**, one case for each thing a thread does. -/
theorem inv_step (hi : Inv env s) (hs : step env s l = some s') : Inv env s' := by
  cases l with
  -- a new edit: its revision is above all that the side has made of the pad
  | edit r now op =>
    simp only [step] at hs
    split at hs
    case isFalse => cases hs
    case isTrue hroom =>
      split at hs
      case h_1 =>
        obtain rfl := Option.some.inj hs
        exact hi
      case h_2 ws' frame hok =>
        obtain rfl := Option.some.inj hs
        refine .of_side r ?_
        simpa [underWay] using (hi r).edit (edit_spec (hi r).soundA.wf hok) hroom
  | selectPad r padId =>
    obtain rfl := Option.some.inj hs
    obtain ⟨wf, hdocs, hlocal, hacked⟩ := selectPad_keeps (hi r).soundA.wf padId
    refine .of_side r ?_
    simpa [underWay] using (hi r).workspace wf hdocs hlocal hacked
  | queueEdit r i =>
    simp only [step] at hs
    split at hs
    case h_2 => cases hs
    case h_1 frame hget =>
      obtain rfl := Option.some.inj hs
      have hmem := List.mem_of_getElem? hget
      have hmade := (hi r).soundA.calls frame hmem
      obtain ⟨hedit, -, -⟩ := (hi r).soundA.edited frame hmade
      have hnack : frame.type ≠ .ack := by
        intro hack
        simp [isNoteEdit, hack] at hedit
      refine .of_side r ?_
      have hcalls (pad : String) : onPad pad frame = true ∨ ((s.side r).callsOn pad).length ≤
          (((s.side r).calls.eraseIdx i).filter fun f => f.padId = pad).length := by
        by_cases hp : frame.padId = pad
        · exact .inl (by simp [onPad, hedit, hp])
        · exact .inr (by rw [filter_eraseIdx hget (by simpa using hp), NoteSession.callsOn])
      have := (hi r).queueFrame (List.eraseIdx_sublist ..) (.inr rfl) (fun _ => hmade)
        (fun hack => absurd hack hnack) hcalls
      simpa [underWay] using this
  | queueReply r =>
    simp only [step] at hs
    split at hs
    case h_2 => cases hs
    case h_1 frame hreply =>
      obtain rfl := Option.some.inj hs
      obtain ⟨hack, hd⟩ := (hi r).acksA.reply frame hreply
      have hnedit : isNoteEdit frame = false := by simp [isNoteEdit, hack]
      refine .of_side r ?_
      have := (hi r).queueFrame (List.Sublist.refl _) (.inl rfl) (fun h => absurd h (by simp [hnedit]))
        (fun _ => hd) fun pad => .inr le_rfl
      simpa [underWay] using this
  | take r =>
    simp only [step] at hs
    split at hs
    case h_2 => cases hs
    case h_1 frame rest hrun hsend hout =>
      obtain rfl := Option.some.inj hs
      refine .of_side r ?_
      have := hi r
      simp only [underWay, hsend, hout] at this
      simpa [underWay] using this.thread
  | send r =>
    simp only [step] at hs
    split at hs
    case h_2 => cases hs
    case h_1 frame hsend =>
      obtain rfl := Option.some.inj hs
      refine .of_side r ?_
      have := hi r
      simp only [underWay, hsend] at this
      simpa [underWay] using this.thread
  -- the other side comes to know of an edit, and owes an ack for it
  | receive r now =>
    simp only [step] at hs
    split at hs
    case h_2 => cases hs
    case h_1 frame rest hreply hwire =>
      obtain rfl := Option.some.inj hs
      refine .of_side r ?_
      have := hi r
      simp only [underWay, hwire] at this
      simpa [underWay, Function.update_of_ne (Role.peer_ne r).symm] using this.receive

/-- The invariant holds of every state of every run. -/
theorem reach_inv {writerId : Role → String} (h : Lts.Reach (step env) (start writerId) s) :
    Inv env s :=
  h.invariant (inv_start writerId) fun hi _ hs => inv_step hi hs

end NoteSystem

end Kiko.Note
