import Kiko.Transfer.ReceivePlan

/-!
# What a plan has been checked for

`preflight_transfer_manifest` takes the entries one by one, and each round adds one entry to the
plan or fails. `PlanMade` is what all of them together have seen to: the plan lists the
manifest's entries under their paths, each under its own; where each goes was decided on the tree
as it stood then; and no two that are written have one target.

What is proved of the loop is proved of one round (`planEntry_ok`), as what it adds to each of
the loop's variables. That lemma is long because the round is: it has the checks of a kind, of
the path, of what stands there, of the conflict policy and of the reservations. Everything that
uses a plan uses `PlanMade` and never a round.
-/

set_option autoImplicit false

namespace Kiko.Transfer

open Lexical FileTree

/-- Where an entry goes, and what has been checked before. -/
structure PlannedFor (env : ReceiveEnv) (t : Tree) (planned : ReceivePlanEntry) : Prop where
  kind : ∃ total total', ReceiveEnv.checkPlanKind total planned.manifest = .ok total'
  target : ∃ reserved current, safeJoin env.outputDir planned.manifest.path = .ok current ∧
    env.planAction t reserved planned.manifest current = .ok (planned.action, planned.targetPath)
  valid : env.validateReceiveTargetParent t planned.targetPath planned.manifest.path = .ok ()
  part : planned.action = .write → planned.manifest.kind = "file" →
    env.validateReceivePartPath t (partPathFor planned.targetPath) planned.manifest.path = .ok ()

/-- Two planned entries that are both written have different targets. -/
def Apart (a b : String × ReceivePlanEntry) : Prop :=
  a.2.action ≠ .skip → b.2.action ≠ .skip → targetKey a.2.targetPath ≠ targetKey b.2.targetPath

/-- Of two entries that are both written nothing the first has planned is in the way of the second: no
    file stands above it, and where it is no directory itself, nothing is below it. -/
def Unobstructed (a b : String × ReceivePlanEntry) : Prop :=
  a.2.action ≠ .skip → b.2.action ≠ .skip →
    (a.2.manifest.kind ≠ "dir" → ∀ parent ∈ b.2.targetPath.properPrefixes, parent.isEmpty = false →
      targetKey parent ≠ targetKey a.2.targetPath) ∧
    (b.2.manifest.kind ≠ "dir" → keyIsParentOf (targetKey b.2.targetPath) (targetKey a.2.targetPath) = false)

instance : Std.Symm Apart := ⟨fun _ _ hab hb ha heq => hab ha hb heq.symm⟩

/-- What a plan for these entries has been checked for. -/
structure PlanMade (env : ReceiveEnv) (t : Tree) (entries : List TransferManifestEntry) (plan : ReceivePlan) :
    Prop where
  manifests : plan.entries.map (·.2.manifest) = entries
  keys : ∀ e ∈ plan.entries, e.1 = e.2.manifest.path
  nodup : (plan.entries.map (·.1)).Nodup
  planned : ∀ e ∈ plan.entries, PlannedFor env t e.2
  apart : plan.entries.Pairwise Apart
  received : plan.receivedPaths = []

section Rounds

variable {env : ReceiveEnv} {t : Tree} {st st' : Preflight} {entry : TransferManifestEntry}
  {target : FsPath}

theorem error_bind_ne {α β : Type} {e : KikoError} {f : α → Except KikoError β} {b : β} :
    (Except.error e >>= f) ≠ .ok b := by
  rintro ⟨⟩

theorem planCollisionError_none {directory fold : Bool} {targets files : List FsPath}
    (h : planCollisionError target directory targets files fold = none) :
    targetKey target fold ∉ targets ∧
      (∀ parent ∈ target.properPrefixes, parent.isEmpty = false → targetKey parent fold ∉ files) ∧
      (directory = false → ∀ other ∈ targets, keyIsParentOf (targetKey target fold) other = false) := by
  unfold planCollisionError at h
  dsimp only at h
  split_ifs at h with hfree hway hbelow
  refine ⟨hfree, fun parent hparent hne hfile => ?_, fun hdir other hother => ?_⟩
  · refine hway (List.any_eq_true.mpr ⟨parent, hparent, ?_⟩)
    simp [hne, hfile]
  · by_contra hcovers
    refine hbelow ?_
    rw [hdir, Bool.not_false, Bool.true_and]
    exact List.any_eq_true.mpr ⟨other, hother, by simpa using hcovers⟩

/-- A reservation is made where nothing stands in its way, and leaves the other variables of the loop
    as they are. -/
theorem reserveTarget_ok (h : env.reserveTarget st entry target = .ok st') :
    planCollisionError target (entry.kind = "dir") st.reservedTargets st.reservedFiles false = none ∧
      st'.reservedTargets = targetKey target :: st.reservedTargets ∧
      st'.reservedFiles = (if entry.kind = "dir" then st.reservedFiles else targetKey target :: st.reservedFiles) ∧
      st'.seenPaths = st.seenPaths ∧ st'.plan = st.plan := by
  unfold ReceiveEnv.reserveTarget at h
  extract_lets directory found key folded reserve unfolded at h
  have hreserve {found : Option Bool} (h : reserve () found = .ok st') :
      st'.reservedTargets = targetKey target :: st.reservedTargets ∧
        st'.reservedFiles = (if entry.kind = "dir" then st.reservedFiles else targetKey target :: st.reservedFiles) ∧
        st'.seenPaths = st.seenPaths ∧ st'.plan = st.plan := by
    obtain rfl := Except.ok.inj h
    exact ⟨rfl, by simp [directory, key], rfl, rfl⟩
  split at h
  · exact absurd h error_bind_ne
  next hno =>
    refine ⟨Option.eq_none_iff_forall_ne_some.mpr hno, ?_⟩
    simp -zeta only [unfolded] at h
    split_ifs at h
    · split at h
      · extract_lets collided at h
        have hcollided {b : Bool} (h : collided b = .ok st') : reserve () (some b) = .ok st' := by
          simp -zeta only [collided] at h
          extract_lets at h
          split_ifs at h
          · exact absurd h error_bind_ne
          · exact h
        clear_value found
        cases found with
        | some b => exact hreserve (hcollided h)
        | none =>
          obtain ⟨b, -, h⟩ := exists_of_bind_ok h
          exact hreserve (hcollided h)
      · exact hreserve h
    · exact hreserve h

/-- What a round has added to the loop's variables. -/
structure Entered (entry : TransferManifestEntry) (planned : ReceivePlanEntry) (st st' : Preflight) : Prop where
  seen : st'.seenPaths = entry.path :: st.seenPaths
  entries : st'.plan.entries = st.plan.entries ++ [(entry.path, planned)]
  received : st'.plan.receivedPaths = st.plan.receivedPaths
  reserved : planned.action = .skip ∧ st'.reservedTargets = st.reservedTargets ∧
      st'.reservedFiles = st.reservedFiles ∨
    planned.action ≠ .skip ∧
      planCollisionError planned.targetPath (entry.kind = "dir") st.reservedTargets st.reservedFiles false = none ∧
      st'.reservedTargets = targetKey planned.targetPath :: st.reservedTargets ∧
      st'.reservedFiles =
        if entry.kind = "dir" then st.reservedFiles else targetKey planned.targetPath :: st.reservedFiles

/-- **A round adds one entry, or fails.** -/
theorem planEntry_ok (h : env.planEntry t st entry = .ok st') :
    entry.path ∉ st.seenPaths ∧ ∃ planned, planned.manifest = entry ∧ PlannedFor env t planned ∧
      (∃ current, safeJoin env.outputDir entry.path = .ok current ∧
        env.planAction t st.reservedTargets entry current = .ok (planned.action, planned.targetPath)) ∧
      Entered entry planned st st' := by
  unfold ReceiveEnv.planEntry at h
  extract_lets isFile none rest fresh at h
  split_ifs at h with hpath
  · exact absurd h error_bind_ne
  simp -zeta only [fresh] at h
  split_ifs at h with hseen
  · exact absurd h error_bind_ne
  refine ⟨hseen, ?_⟩
  simp -zeta only [rest] at h
  obtain ⟨current, hjoin, h⟩ := exists_of_bind_ok h
  extract_lets existing at h
  obtain ⟨total, hkind, h⟩ := exists_of_bind_ok h
  obtain ⟨⟨action, target⟩, haction, h⟩ := exists_of_bind_ok h
  obtain ⟨_, hvalid, h⟩ := exists_of_bind_ok h
  extract_lets st₁ summary planned overwritten resumed at h
  have hpart : action = .write → entry.kind = "file" →
      env.validateReceivePartPath t (partPathFor target) entry.path = .ok () := by
    intro hwrite hfile
    rw [if_pos ⟨hwrite, by simpa [isFile] using hfile⟩] at h
    obtain ⟨_, hpart, -⟩ := exists_of_bind_ok h
    exact hpart
  refine ⟨planned, rfl, ⟨⟨_, total, hkind⟩, ⟨_, current, hjoin, haction⟩, hvalid, hpart⟩, ⟨current, hjoin, haction⟩, ?_⟩
  -- whatever there is to resume, only the numbers depend on it
  suffices hresumed : ∀ resume, resumed () resume = .ok st' → Entered entry planned st st' by
    split_ifs at h
    · obtain ⟨_, -, h⟩ := exists_of_bind_ok h
      obtain ⟨resume, -, h⟩ := exists_of_bind_ok h
      exact hresumed resume h
    · exact hresumed none h
  intro resume h
  simp -zeta only [resumed] at h
  extract_lets accounted decided counted at h
  suffices hdecided : ∀ summary, decided () summary = .ok st' → Entered entry planned st st' by
    have hcounted {summary : ReceivePlanSummary} (h : counted () summary = .ok st') :
        Entered entry planned st st' := by
      simp -zeta only [counted] at h
      extract_lets resuming at h
      split_ifs at h
      · exact hdecided _ h
      · exact hdecided _ h
    split_ifs at h
    · exact hcounted h
    · exact hcounted h
  clear h
  intro summary h
  have haccounted {st₂ : Preflight} {summary : ReceivePlanSummary} (h : accounted () st₂ summary = .ok st') :
      st'.seenPaths = st₂.seenPaths ∧ st'.reservedTargets = st₂.reservedTargets ∧
        st'.reservedFiles = st₂.reservedFiles ∧ st'.plan = { st₂.plan with entries := st₂.plan.entries ++ [(entry.path, planned)] } := by
    simp -zeta only [accounted] at h
    extract_lets listed at h
    split_ifs at h
    · obtain ⟨written, -, h⟩ := exists_of_bind_ok h
      obtain rfl := Except.ok.inj h
      exact ⟨rfl, rfl, rfl, rfl⟩
    · obtain rfl := Except.ok.inj h
      exact ⟨rfl, rfl, rfl, rfl⟩
  simp -zeta only [decided] at h
  extract_lets skipping at h
  split at h
  next hskip =>
    obtain ⟨hseen', hreserved, hfiles, hplan⟩ := haccounted h
    exact ⟨hseen', by rw [hplan], by rw [hplan], .inl ⟨hskip, hreserved, hfiles⟩⟩
  next hwritten =>
    obtain ⟨st₂, hreserve, h⟩ := exists_of_bind_ok h
    obtain ⟨hfree, hreserved, hfiles, hseen₂, hplan₂⟩ := reserveTarget_ok hreserve
    have hend : ∃ summary, accounted () st₂ summary = .ok st' := by
      split_ifs at h
      · exact ⟨_, h⟩
      · exact ⟨_, h⟩
    obtain ⟨summary', hend⟩ := hend
    obtain ⟨hseen', hreserved', hfiles', hplan⟩ := haccounted hend
    refine ⟨hseen'.trans hseen₂, ?_, ?_, .inr ⟨hwritten, hfree, hreserved'.trans hreserved, hfiles'.trans hfiles⟩⟩
    · rw [hplan, hplan₂]
    · rw [hplan, hplan₂]

/-- What the rounds so far have seen to. -/
structure Preflight.Sound (env : ReceiveEnv) (t : Tree) (entries : List TransferManifestEntry) (st : Preflight) :
    Prop where
  made : PlanMade env t entries st.plan
  unobstructed : st.plan.entries.Pairwise Unobstructed
  seen : ∀ e ∈ st.plan.entries, e.1 ∈ st.seenPaths
  reserved : ∀ e ∈ st.plan.entries, e.2.action ≠ .skip → targetKey e.2.targetPath ∈ st.reservedTargets
  files : ∀ e ∈ st.plan.entries, e.2.action ≠ .skip → e.2.manifest.kind ≠ "dir" →
    targetKey e.2.targetPath ∈ st.reservedFiles

theorem Preflight.Sound.round {entries : List TransferManifestEntry} (h : st.Sound env t entries)
    (hr : env.planEntry t st entry = .ok st') : st'.Sound env t (entries ++ [entry]) := by
  obtain ⟨hnew, planned, hmanifest, hplanned, -, hentered⟩ := planEntry_ok hr
  -- an entry of the new plan is an old one or the one of this round
  have hmem {e : String × ReceivePlanEntry} (he : e ∈ st'.plan.entries) :
      e ∈ st.plan.entries ∨ e = (entry.path, planned) := by
    rw [hentered.entries] at he
    simpa using he
  -- old entries stay reserved
  have hkept {e : String × ReceivePlanEntry} (he : e ∈ st.plan.entries) (hskip : e.2.action ≠ .skip) :
      targetKey e.2.targetPath ∈ st'.reservedTargets := by
    rcases hentered.reserved with ⟨-, hsame, -⟩ | ⟨-, -, hcons, -⟩
    · rw [hsame]
      exact h.reserved e he hskip
    · rw [hcons]
      exact List.mem_cons_of_mem _ (h.reserved e he hskip)
  have hfiles {e : String × ReceivePlanEntry} (he : e ∈ st.plan.entries) (hskip : e.2.action ≠ .skip)
      (hkind : e.2.manifest.kind ≠ "dir") : targetKey e.2.targetPath ∈ st'.reservedFiles := by
    rcases hentered.reserved with ⟨-, -, hsame⟩ | ⟨-, -, -, hcons⟩
    · rw [hsame]
      exact h.files e he hskip hkind
    · rw [hcons]
      split_ifs
      · exact h.files e he hskip hkind
      · exact List.mem_cons_of_mem _ (h.files e he hskip hkind)
  -- the parts of `PlanMade`, then what the loop's variables hold
  refine ⟨⟨?_, fun e he => ?_, ?_, fun e he => ?_, ?_, hentered.received.trans h.made.received⟩, ?_, fun e he => ?_,
    fun e he hskip => ?_, fun e he hskip hkind => ?_⟩
  · rw [hentered.entries, List.map_append, h.made.manifests, List.map_singleton, hmanifest]
  · rcases hmem he with he | rfl
    · exact h.made.keys e he
    · rw [hmanifest]
  · rw [hentered.entries, List.map_append, List.nodup_append]
    refine ⟨h.made.nodup, by simp, ?_⟩
    intro path hpath path' hpath'
    obtain ⟨e, he, rfl⟩ := List.mem_map.mp hpath
    obtain rfl : path' = entry.path := by simpa using hpath'
    intro heq
    exact hnew (heq ▸ h.seen e he)
  · rcases hmem he with he | rfl
    · exact h.made.planned e he
    · exact hplanned
  · rw [hentered.entries, List.pairwise_append]
    refine ⟨h.made.apart, by simp, ?_⟩
    intro e he e' he' hskip hskip'
    obtain rfl := List.mem_singleton.mp he'
    rcases hentered.reserved with ⟨hskips, -⟩ | ⟨-, hfree, -⟩
    · exact absurd hskips hskip'
    · exact fun heq => (planCollisionError_none hfree).1 (heq ▸ h.reserved e he hskip)
  · rw [hentered.entries, List.pairwise_append]
    refine ⟨h.unobstructed, by simp, ?_⟩
    intro e he e' he' hskip hskip'
    obtain rfl := List.mem_singleton.mp he'
    rcases hentered.reserved with ⟨hskips, -⟩ | ⟨-, hfree, -⟩
    · exact absurd hskips hskip'
    obtain ⟨-, hway, hbelow⟩ := planCollisionError_none hfree
    refine ⟨fun hkind parent hparent hne heq => ?_, fun hkind => ?_⟩
    · exact hway parent hparent hne (heq ▸ h.files e he hskip hkind)
    · exact hbelow (by simpa [hmanifest] using hkind) _ (h.reserved e he hskip)
  · rw [hentered.seen]
    rcases hmem he with he | rfl
    · exact List.mem_cons_of_mem _ (h.seen e he)
    · exact List.mem_cons_self ..
  · rcases hmem he with he | rfl
    · exact hkept he hskip
    · rcases hentered.reserved with ⟨hskips, -⟩ | ⟨-, -, hcons, -⟩
      · exact absurd hskips hskip
      · rw [hcons]
        exact List.mem_cons_self ..
  · rcases hmem he with he | rfl
    · exact hfiles he hskip hkind
    · rcases hentered.reserved with ⟨hskips, -⟩ | ⟨-, -, -, hcons⟩
      · exact absurd hskips hskip
      · rw [hcons, if_neg (by rwa [← hmanifest])]
        exact List.mem_cons_self ..

theorem Preflight.Sound.rounds {entries rest : List TransferManifestEntry} (h : st.Sound env t entries)
    (hr : rest.foldlM (env.planEntry t) st = .ok st') : st'.Sound env t (entries ++ rest) := by
  induction rest generalizing st entries with
  | nil =>
    obtain rfl := Except.ok.inj hr
    rwa [List.append_nil]
  | cons entry rest ih =>
    rw [List.foldlM_cons] at hr
    obtain ⟨st₁, hround, hr⟩ := exists_of_bind_ok hr
    rw [← List.singleton_append, ← List.append_assoc]
    exact ih (h.round hround) hr

theorem preflight_sound {manifest : TransferManifest} {plan : ReceivePlan} {summary : ReceivePlanSummary}
    (h : env.preflight t manifest = .ok (plan, summary)) :
    ∃ st : Preflight, st.Sound env t manifest.entries ∧ st.plan = plan := by
  unfold ReceiveEnv.preflight at h
  extract_lets start at h
  obtain ⟨st, hrounds, h⟩ := exists_of_bind_ok h
  have hstart : start.Sound env t [] :=
    ⟨⟨rfl, by simp [start], by simp [start], by simp [start], by simp [start], rfl⟩, by simp [start], by simp [start],
      by simp [start], by simp [start]⟩
  have hend := hstart.rounds hrounds
  split_ifs at h
  obtain ⟨_, -, h⟩ := exists_of_bind_ok h
  exact ⟨st, hend, (Prod.mk.inj (Except.ok.inj h)).1⟩

/-- **What a plan is checked for.** -/
theorem preflight_made {manifest : TransferManifest} {plan : ReceivePlan} {summary : ReceivePlanSummary}
    (h : env.preflight t manifest = .ok (plan, summary)) : PlanMade env t manifest.entries plan := by
  obtain ⟨st, hsound, rfl⟩ := preflight_sound h
  exact hsound.made

theorem preflight_unobstructed {manifest : TransferManifest} {plan : ReceivePlan} {summary : ReceivePlanSummary}
    (h : env.preflight t manifest = .ok (plan, summary)) : plan.entries.Pairwise Unobstructed := by
  obtain ⟨st, hsound, rfl⟩ := preflight_sound h
  exact hsound.unobstructed

end Rounds
end Kiko.Transfer
