import Kiko.Transfer.Footprint

/-!
# What the conflict policy protects

Under `skip` and `rename` a receiver is not to touch the files that were there before it came,
and under `rename` every entry is to have a place of its own. With a manifest the places are
chosen before the first entry (`PlanMade`); without one each is chosen when its header comes,
among the places that are free at that time.

A partial file spoils the second way: `x.kikopart`, once it has been received, is where `x` finds
its partial file. The file `x` takes it, and what comes next for `x.kikopart` finds the place
free again (`rename_reuses`). So for entries that come without a manifest names of partial files
are left out (`NoPartNames`), and then all of it holds, after every step of every run
(`protectsExisting`), as long as the output directory as it is spelled is where its normal form
leads.

With and without a manifest are two arguments that share a statement. With one, all destinations
are fixed before anything is written, so what has to be kept is that nothing else is ever written
and that what was vacant when the plan was made still is when its turn comes. Without one there
is no plan to refer to, and each place is free because the code has just looked; what has to be
kept is that a place that was taken is seen to be taken the next time, which is where a partial
file of the same name, moved away, undoes it.
-/

set_option autoImplicit false

namespace Kiko.Transfer

open Lexical FileTree FsPath Effect

/-! ## The property

The record `landed` is the ghost of the run: it has the places that trailers have committed to,
and freshness is said of it. -/

/-- What has been acted on since. -/
def Disk.since (d d' : Disk) : List Place := d'.touched.drop d.touched.length

local instance place_lawful : LawfulBEq Place := inferInstanceAs (LawfulBEq (List String))

/-- The record of the places that trailers have committed a file or a link to. -/
def noteLanded (env : ReceiveEnv) (landed : List Place) (s : Intake) (frame : Option Frame) (s' : Intake) :
    List Place :=
  match frame, s.phase.target? with
  | some (.fileEnd _), some setup =>
    match locate s'.disk.tree env.cwd setup.currentPath with
    | some p => if p ∈ s.disk.since s'.disk ∧ s'.disk.tree p ≠ some .dir then landed ++ [p] else landed
    | none => landed
  | _, _ => landed

/-- The files that were there are as they were, those under a name for a partial file apart; and
    what was renamed has come to places that were free, and each to its own. -/
structure ProtectsExisting (env : ReceiveEnv) (t t' : Tree) (landed : List Place) : Prop where
  files : ∀ p content, t p = some (.file content) → ¬ PartPlace p → t' p = some (.file content)
  fresh : env.policy = .rename → ∀ p ∈ landed, t p = none
  own : env.policy = .rename → landed.Nodup

/-- Without a manifest, what is to be renamed out of the way has no name for a partial file. -/
def NoPartNames (env : ReceiveEnv) (s : Intake) : Option Frame → Prop
  | some (.fileHeader header) =>
    env.policy = .rename → s.plan = none → ¬ IsPartName (ofString (header.get "path")).filename
  | _ => True

instance IsPartName.decidable (name : String) : Decidable (IsPartName name) :=
  decidable_of_iff (".kikopart".toList <:+ name.toList)
    ⟨fun ⟨stem, h⟩ => ⟨String.ofList stem, String.toList_inj.mp (by simpa using h.symm)⟩,
      fun ⟨stem, h⟩ => ⟨stem.toList, by simp [h]⟩⟩

instance NoPartNames.decidable (env : ReceiveEnv) (s : Intake) (frame : Option Frame) :
    Decidable (NoPartNames env s frame) :=
  match frame with
  | some (.fileHeader header) =>
    inferInstanceAs (Decidable (env.policy = .rename → s.plan = none →
      ¬ IsPartName (ofString (header.get "path")).filename))
  | none | some (.data _) | some (.fileEnd _) | some .done | some (.resume _) | some .chunkEnd | some .ack
  | some (.resumeAck _) | some (.manifest _) => inferInstanceAs (Decidable True)

/-! ## Names and places

From places back to names: a place that ends in a partial name can only have come from a header
with one. -/

section Places

variable {env : ReceiveEnv} {root : Place} {t : Tree} {p q : FsPath} {rel rel' : List String}

/-- What ends at a place for a partial file has a name for one. -/
theorem partName_of_place (hb : Below env p rel) (hlast : names rel ≠ names rel.dropLast)
    (h : PartPlace (root ++ names rel)) : IsPartName p.filename := by
  obtain ⟨init, name, rfl⟩ : ∃ init name, rel = init ++ [name] :=
    ⟨rel.dropLast, rel.getLast hb.ne, (List.dropLast_append_getLast hb.ne).symm⟩
  obtain ⟨above, stem, hplace⟩ := h
  rw [names_concat, List.dropLast_concat] at hlast
  rw [names_concat] at hplace
  split_ifs at hlast hplace with hskip
  · simp at hlast
  · rw [← List.append_assoc] at hplace
    refine ⟨stem, ?_⟩
    rw [FsPath.filename, hb.last, List.getLast?_concat]
    exact (List.append_inj' hplace rfl).2 |> List.cons.inj |>.1

theorem normalParts_ne {absolute : Bool} {taken parts : List String} (h : "" ∉ taken) :
    "" ∉ normalParts absolute taken parts := by
  induction parts generalizing taken with
  | nil => simpa [normalParts] using h
  | cons part rest ih =>
    rw [normalParts_cons]
    by_cases hskip : part = "." ∨ part = ""
    · rw [if_pos hskip]
      exact ih h
    rw [if_neg hskip]
    by_cases hup : part = ".."
    · rw [if_pos hup]
      cases taken with
      | nil =>
        refine ih ?_
        split_ifs <;> simp
      | cons top below =>
        obtain ⟨htop, hbelow⟩ : "" ≠ top ∧ "" ∉ below := by simpa using h
        dsimp only
        split_ifs
        · exact ih (by simp [htop, hbelow])
        · exact ih hbelow
    · rw [if_neg hup]
      refine ih ?_
      simp only [not_or] at hskip
      simp [h, Ne.symm hskip.2]

/-- The normal form, its trailing slash apart, depends on the names only. -/
theorem stripped_normal (h : p.parts ≠ []) : p.normal.stripped =
    { isAbsolute := p.isAbsolute
      parts :=
        if normalParts p.isAbsolute [] p.parts = [] then if p.isAbsolute then [] else ["."]
        else normalParts p.isAbsolute [] p.parts } := by
  have hne : "" ∉ normalParts p.isAbsolute [] p.parts := normalParts_ne (by simp)
  have hlast : (normalParts p.isAbsolute [] p.parts).getLast? ≠ some "" := fun heq => hne (List.mem_of_getLast? heq)
  simp only [FsPath.normal, h, or_false]
  by_cases hnil : normalParts p.isAbsolute [] p.parts = []
  · rw [if_pos hnil, if_pos hnil]
    cases p.isAbsolute <;> simp [FsPath.stripped, FsPath.trailing]
  · rw [if_neg hnil, if_neg hnil]
    split_ifs
    · simp [FsPath.stripped, FsPath.trailing]
    · simp [FsPath.stripped, FsPath.trailing, hlast]

theorem Below.parts_ne (h : Below env p rel) : p.parts ≠ [] := by
  intro hnil
  have hlast := h.last
  rw [hnil, List.getLast?_nil, eq_comm, List.getLast?_eq_none_iff] at hlast
  exact h.ne hlast

/-- Targets of one name have one key. -/
theorem targetKey_eq (hp : Below env p rel) (hq : Below env q rel') (h : names rel = names rel') :
    targetKey p = targetKey q := by
  have hsame : names p.parts = names q.parts := by rw [hp.names, hq.names, h]
  have hparts : normalParts p.isAbsolute [] p.parts = normalParts q.isAbsolute [] q.parts := by
    rw [hp.absolute, hq.absolute, ← normalParts_names _ _ p.parts, ← normalParts_names _ _ q.parts, hsame]
  rw [targetKey, targetKey, if_neg (by simp), if_neg (by simp), stripped_normal hp.parts_ne,
    stripped_normal hq.parts_ne, hparts, hp.absolute, hq.absolute]

end Places

/-! ## The plan

A plan is as good as the tree it was made on. It is kept as a premise that the plan was made on
the tree the run started from, changed in nothing but directories. -/

/-- The plan in use was made on this tree. -/
def PlanStands (env : ReceiveEnv) (t : Tree) (plan : ReceivePlan) : Prop :=
  ∃ entries, PlanMade env t entries { plan with receivedPaths := [] }

section Plan

variable {env : ReceiveEnv} {root : Place} {t : Tree} {plan : ReceivePlan} {relative relative' : String}
  {planned planned' : ReceivePlanEntry} {rel rel' : List String}

/-- Where nothing may be overwritten, what is planned to be written goes where nothing stands. -/
theorem PlanStands.vacant (h : PlanStands env t plan) (hagree : Agrees env t root) (hsane : Sane t)
    (hpol : env.policy ≠ .overwrite) (hfind : findReceivePlanEntry (some plan) relative = some planned)
    (hskip : planned.action ≠ .skip) (hkind : planned.manifest.kind ≠ "dir")
    (hb : Below env planned.targetPath rel) : look t (root ++ names rel) = none := by
  obtain ⟨entries, hmade⟩ := h
  have hfor := hmade.planned _ (find_mem hfind)
  obtain ⟨reserved, current, hjoin, haction⟩ := hfor.target
  obtain ⟨-, -, hfree⟩ := planAction_ok (below_of_safeJoin hjoin) haction
  exact look_eq_none hagree hsane hb (straight_of_valid hagree hb hfor.valid) (hfree hkind hpol hskip)

theorem PlanStands.apart (h : PlanStands env t plan)
    (hfind : findReceivePlanEntry (some plan) relative = some planned)
    (hfind' : findReceivePlanEntry (some plan) relative' = some planned') (hne : relative ≠ relative')
    (hskip : planned.action ≠ .skip) (hskip' : planned'.action ≠ .skip)
    (hb : Below env planned.targetPath rel) (hb' : Below env planned'.targetPath rel') : names rel ≠ names rel' := by
  obtain ⟨entries, hmade⟩ := h
  have hapart := hmade.apart.forall (find_mem hfind) (find_mem hfind') (fun heq => hne (congrArg Prod.fst heq))
  exact fun heq => hapart hskip hskip' (targetKey_eq hb hb' heq)

theorem PlanStands.recorded (h : PlanStands env t plan) (receivedPaths : List String) :
    PlanStands env t { plan with receivedPaths := receivedPaths } := h

end Plan

/-! ## The invariant

`Live` is asked only while the receiver goes on, `Guarded` of a receiver that has thrown as well:
an error may leave an entry open, and what was there has to be there all the same. -/

/-- A place that an entry of the plan was to be written to. -/
def PlannedAt (env : ReceiveEnv) (root : Place) (plan : ReceivePlan) (relative : String) (p : Place) : Prop :=
  ∃ planned rel, findReceivePlanEntry (some plan) relative = some planned ∧ planned.action ≠ .skip ∧
    Below env planned.targetPath rel ∧ p = root ++ names rel

/-- What holds as long as the receiver goes on. -/
structure Live (env : ReceiveEnv) (root : Place) (t : Tree) (s : Intake) (landed : List Place) : Prop where
  early : s.sawFileHeader = false → s.disk.tree = t ∧ landed = []
  plan : ∀ plan, s.plan = some plan → PlanStands env t plan
  planned : ∀ setup, s.phase.setup? = some setup → setup.planned = findReceivePlanEntry s.plan setup.relative
  listed : ∀ setup, s.phase.setup? = some setup → ∀ plan, s.plan = some plan →
    setup.relative ∈ plan.receivedPaths ∧ setup.planned ≠ none
  named : ∀ setup, s.phase.setup? = some setup → s.plan = none → env.policy = .rename →
    ¬ IsPartName (ofString setup.relative).filename
  held : env.policy = .rename → s.plan = none → ∀ p ∈ landed, ¬ PartPlace p ∧ s.disk.tree p ≠ none
  by_plan : env.policy = .rename → ∀ plan, s.plan = some plan → ∀ p ∈ landed, ∃ relative ∈ plan.receivedPaths,
    PlannedAt env root plan relative p ∧ ∀ setup, s.phase.setup? = some setup → setup.relative ≠ relative

/-- What holds of a receiver that may not overwrite, from the tree `t` on. -/
structure Guarded (env : ReceiveEnv) (root : Place) (t : Tree) (s : Intake) (landed : List Place) : Prop where
  placed : s.Placed env root
  kept : ∀ p node, t p = some node → s.disk.tree p = some node ∨ PartPlace p ∧ ∃ content, node = .file content
  fresh : env.policy = .rename → ∀ p ∈ landed, t p = none
  own : env.policy = .rename → landed.Nodup
  live : s.phase.over = false → Live env root t s landed

section Steps

variable {env : ReceiveEnv} {root : Place} {t : Tree} {s s' : Intake} {landed : List Place} {f : Option Frame}
  {setup : EntrySetup} {rel : List String}

theorem agrees_of_kept {t' : Tree} (hagree : Agrees env t root)
    (hkept : ∀ p node, t p = some node → t' p = some node ∨ PartPlace p ∧ ∃ content, node = .file content) :
    Agrees env t' root := by
  refine hagree.keeps ⟨fun hp => ?_, fun hp => ?_⟩
  · rcases hkept _ _ hp with hp' | ⟨-, content, hfile⟩
    · exact hp'
    · cases hfile
  · rcases hkept _ _ hp with hp' | ⟨-, content, hfile⟩
    · exact hp'
    · cases hfile

theorem over_of_target (h : s.phase.target? = some setup) : s.phase.over = false ∧ s.phase.setup? = some setup := by
  generalize s.phase = phase at h ⊢
  cases phase with
  | marker setup' m =>
    cases m with
    | directory => cases h
    | symlink target skip =>
      cases skip with
      | true => cases h
      | false => exact ⟨rfl, h⟩
  | payload session out content => exact ⟨rfl, h⟩
  | received session => exact ⟨rfl, h⟩
  | _ => cases h

/-- Where something is committed, nothing stood: neither then, without a plan, nor at the start,
    by the plan. -/
theorem Guarded.vacant (h : Guarded env root t s landed) (hagree : Agrees env t root) (hsane : Sane t)
    (hpol : env.policy ≠ .overwrite) (hends : s.Ends env root f s' setup rel)
    (hlook : look s.disk.tree (root ++ names rel) ≠ some .dir) :
    t (root ++ names rel) = none ∨ setup.planned = none ∧ s.disk.tree (root ++ names rel) = none := by
  have hne : root ++ names rel ≠ [] := fun hnil => hlook (by rw [hnil]; rfl)
  obtain ⟨hover, hsetup⟩ := over_of_target hends.entry
  cases hplanned : setup.planned with
  | none =>
    have hv := (hends.aimed.vacant hplanned hpol).resolve_right hlook
    rw [look, if_neg hne] at hv
    exact .inr ⟨rfl, hv⟩
  | some planned =>
    refine .inl ?_
    have hlive := h.live hover
    obtain ⟨htarget, hskip, hkind⟩ := hends.aimed.planned planned hplanned
    have hfind := (hlive.planned setup hsetup).symm.trans hplanned
    cases hplan : s.plan with
    | none =>
      rw [hplan] at hfind
      cases hfind
    | some plan =>
      rw [hplan] at hfind
      have hv := (hlive.plan plan hplan).vacant hagree hsane hpol hfind hskip hkind (htarget ▸ hends.aimed.below)
      rwa [look, if_neg hne] at hv

/-- **What was there stays**, the files under names for partial files apart. -/
theorem Guarded.kept_step (h : Guarded env root t s landed) (hagree : Agrees env t root) (hsane : Sane t)
    (hpol : env.policy ≠ .overwrite) (hdoes : s.Does env root f s') {p : Place} {node : Node Bytes}
    (hp : t p = some node) :
    s'.disk.tree p = some node ∨ PartPlace p ∧ ∃ content, node = .file content := by
  rcases h.kept p node hp with hstands | hpart
  · obtain ⟨target, new, hacts, htarget⟩ : ∃ target new, Acts root target s.disk s'.disk new ∧
        ∀ q, target = some q → ∃ setup rel, s.Ends env root f s' setup rel ∧ q = root ++ names rel := by
      rcases hdoes with ⟨⟨new, hacts⟩, -⟩ | ⟨setup, rel, hends⟩
      · exact ⟨none, new, hacts, by simp⟩
      · obtain ⟨new, hacts⟩ := hends.acting
        exact ⟨_, new, hacts, fun q hq => ⟨setup, rel, hends, (Option.some.inj hq).symm⟩⟩
    rcases hacts.tree p with heq | ⟨hnone, -⟩ | ⟨hpart, hnone | ⟨c, hfile⟩⟩ | ⟨hq, hmem, hnot⟩
    · exact .inl (heq.trans hstands)
    · cases hnone.symm.trans hstands
    · cases hnone.symm.trans hstands
    · exact .inr ⟨hpart, c, Option.some.inj (hstands.symm.trans hfile)⟩
    · -- nothing stood where something has been committed
      obtain ⟨setup, rel, hends, rfl⟩ := htarget p hq
      have hlook := ((hacts.lands _ hmem hq).resolve_left hnot).1
      rcases h.vacant hagree hsane hpol hends hlook with hnone | ⟨-, hnone⟩
      · cases hnone.symm.trans hp
      · cases hnone.symm.trans hstands
  · exact .inr hpart

/-- What the record takes: a target where no directory stood and where something stands now. -/
theorem noteLanded_cases (landed : List Place) (hagree : Agrees env s'.disk.tree root) (hsane : Sane s'.disk.tree)
    (hdoes : s.Does env root f s') : noteLanded env landed s f s' = landed ∨
      ∃ setup rel, s.Ends env root f s' setup rel ∧ noteLanded env landed s f s' = landed ++ [root ++ names rel] ∧
        look s.disk.tree (root ++ names rel) ≠ some .dir ∧ s'.disk.tree (root ++ names rel) ≠ none ∧
        names rel ≠ names rel.dropLast := by
  unfold noteLanded
  split
  next trailer setup hentry =>
    rcases hdoes with ⟨-, htrailer | hnone | hsame⟩ | ⟨setup', rel, hends⟩
    · exact absurd rfl (htrailer trailer)
    · cases hnone.symm.trans hentry
    · have hsince : s.disk.since s'.disk = [] := by simp [Disk.since, hsame]
      simp only [hsince, List.not_mem_nil, false_and, if_false]
      split <;> exact .inl rfl
    · obtain rfl := Option.some.inj (hentry.symm.trans hends.entry)
      split
      next p hlocate =>
        split_ifs with hnew
        · obtain ⟨new, hacts⟩ := hends.acting
          have hsince : s.disk.since s'.disk = new := by simp [Disk.since, hacts.touched]
          rw [hsince] at hnew
          have hdesc : Descends s'.disk.tree root (names rel.dropLast) := by
            refine hends.way.resolve_left fun hnothing => ?_
            rw [hacts.touched] at hnothing
            rw [List.append_right_eq_self.mp hnothing] at hnew
            exact absurd hnew.1 List.not_mem_nil
          obtain rfl : root ++ names rel = p :=
            Option.some.inj ((locate_of_descends hagree hends.aimed.below hdesc).symm.trans hlocate)
          obtain ⟨hlook, hsome⟩ := (hacts.lands _ hnew.1 rfl).resolve_left hnew.2
          refine .inr ⟨setup, rel, hends, rfl, hlook, hsome, fun heq => ?_⟩
          have hdir := hdesc.look (hagree.dir hsane)
          rw [← heq] at hdir
          have hne : root ++ names rel ≠ [] := fun hnil => hlook (by rw [hnil]; rfl)
          rw [look, if_neg hne] at hdir
          exact hnew.2 hdir
        · exact .inl rfl
      next => exact .inl rfl
  next => exact .inl rfl

/-- What stands under a name that is none for a partial file is not removed. -/
theorem stands_step (hdoes : s.Does env root f s') {p : Place} (hpart : ¬ PartPlace p) (hp : s.disk.tree p ≠ none) :
    s'.disk.tree p ≠ none := by
  obtain ⟨target, new, hacts⟩ : ∃ target new, Acts root target s.disk s'.disk new := by
    rcases hdoes with ⟨⟨new, hacts⟩, -⟩ | ⟨setup, rel, hends⟩
    · exact ⟨none, new, hacts⟩
    · obtain ⟨new, hacts⟩ := hends.acting
      exact ⟨_, new, hacts⟩
  rcases hacts.tree p with heq | ⟨hnone, -⟩ | ⟨hplace, -⟩ | ⟨hq, hmem, hnot⟩
  · rwa [heq]
  · exact absurd hnone hp
  · exact absurd hplace hpart
  · exact ((hacts.lands _ hmem hq).resolve_left hnot).2

/-- **What is recorded was free**, at the start and until then. -/
theorem Guarded.fresh_step (h : Guarded env root t s landed) (hagree : Agrees env t root) (hsane : Sane t)
    (hpol : env.policy = .rename) (hends : s.Ends env root f s' setup rel)
    (hlook : look s.disk.tree (root ++ names rel) ≠ some .dir) (hlast : names rel ≠ names rel.dropLast) :
    t (root ++ names rel) = none ∧ root ++ names rel ∉ landed ∧ (s.plan = none → ¬ PartPlace (root ++ names rel)) ∧
      ∀ plan, s.plan = some plan → PlannedAt env root plan setup.relative (root ++ names rel) := by
  obtain ⟨hover, hsetup⟩ := over_of_target hends.entry
  have hlive := h.live hover
  have hvacant := h.vacant hagree hsane (by simp [hpol]) hends hlook
  cases hplan : s.plan with
  | none =>
    have hunplanned : setup.planned = none := by
      rw [hlive.planned setup hsetup, hplan]
      rfl
    have hpart : ¬ PartPlace (root ++ names rel) := fun hplace => hlive.named setup hsetup hplan hpol
      (hends.aimed.named hunplanned (partName_of_place hends.aimed.below hlast hplace))
    have hnone : s.disk.tree (root ++ names rel) = none := by
      have hne : root ++ names rel ≠ [] := fun hnil => hlook (by rw [hnil]; rfl)
      have hv := (hends.aimed.vacant hunplanned (by simp [hpol])).resolve_right hlook
      rwa [look, if_neg hne] at hv
    refine ⟨?_, fun hmem => (hlive.held hpol hplan _ hmem).2 hnone, fun _ => hpart, by simp⟩
    by_contra hsome
    obtain ⟨node, hnode⟩ := Option.ne_none_iff_exists'.mp hsome
    rcases h.kept _ _ hnode with hstands | ⟨hplace, -⟩
    · cases hnone.symm.trans hstands
    · exact hpart hplace
  | some plan =>
    obtain ⟨planned, hplanned⟩ := Option.ne_none_iff_exists'.mp (hlive.listed setup hsetup plan hplan).2
    obtain ⟨htarget, hskip, hkind⟩ := hends.aimed.planned planned hplanned
    have hfind : findReceivePlanEntry (some plan) setup.relative = some planned := by
      rw [← hplan, ← hlive.planned setup hsetup, hplanned]
    have hb : Below env planned.targetPath rel := htarget ▸ hends.aimed.below
    refine ⟨hvacant.resolve_right fun hv => ?_, fun hmem => ?_, by simp, fun plan' heq => ?_⟩
    · cases hv.1.symm.trans hplanned
    · obtain ⟨relative, -, ⟨planned', rel', hfind', hskip', hb', heq⟩, hne⟩ := hlive.by_plan hpol plan hplan _ hmem
      exact (hlive.plan plan hplan).apart hfind hfind' (hne setup hsetup) hskip hskip' hb hb'
        (List.append_cancel_left heq)
    · obtain rfl := Option.some.inj heq
      exact ⟨planned, rel, hfind, hskip, hb, rfl⟩

/-- Before the first header nothing is committed. -/
theorem noteLanded_early (hsound : s.Sound env) (hearly : s.sawFileHeader = false) :
    noteLanded env landed s f s' = landed := by
  unfold noteLanded
  split
  next trailer setup hentry =>
    obtain ⟨hover, hsetup⟩ := over_of_target hentry
    rcases hsound.early hearly with hidle | hover'
    · rw [hidle] at hsetup
      cases hsetup
    · cases hover.symm.trans hover'
  next => rfl

/-- A manifest is taken before anything has changed. -/
theorem Live.manifest {entries : List TransferManifestEntry} {plan : ReceivePlan} (h : Live env root t s landed)
    (hsound : s.Sound env) (hover : s.phase.over = false) (hearly : s.sawFileHeader = false)
    (hmade : PlanMade env s.disk.tree entries plan) (hplan : s'.plan = some plan) (hphase : s'.phase = s.phase)
    (htree : s'.disk.tree = s.disk.tree) : Live env root t s' landed := by
  obtain ⟨hsame, rfl⟩ := h.early hearly
  have hidle : s'.phase.setup? = none := by
    rcases hsound.early hearly with hidle | hover'
    · rw [hphase, hidle]
      rfl
    · cases hover.symm.trans hover'
  have hnothing {setup : EntrySetup} {P : Prop} (hsetup : s'.phase.setup? = some setup) : P := by
    rw [hidle] at hsetup
    cases hsetup
  refine ⟨fun _ => ⟨htree.trans hsame, rfl⟩, fun plan' heq => ?_, fun _ hs => hnothing hs, fun _ hs => hnothing hs,
    fun _ hs => hnothing hs, fun _ _ => by simp, fun _ _ _ => by simp⟩
  obtain rfl := Option.some.inj (hplan.symm.trans heq)
  refine ⟨entries, ?_⟩
  have hreceived : { plan with receivedPaths := [] } = plan := by rw [← hmade.received]
  rw [hreceived, ← hsame]
  exact hmade

/-- A header is taken when no entry is open; its path has not been taken before. -/
theorem Live.header {message : Message} (h : Live env root t s landed)
    (hguard : NoPartNames env s (some (.fileHeader message))) (hrecord : recordReceivePlanHeader s.plan (message.get "path") = .ok s'.plan)
    (hsaw : s'.sawFileHeader = true)
    (hentry : ∀ setup, s'.phase.setup? = some setup → setup.relative = message.get "path" ∧
      setup.planned = findReceivePlanEntry s'.plan setup.relative)
    (hdoes : s.Does env root (some (.fileHeader message)) s') : Live env root t s' landed := by
  refine ⟨fun hearly => ?_, fun plan' hplan' => ?_, fun setup hsetup => (hentry setup hsetup).2,
    fun setup hsetup plan' hplan' => ?_, fun setup hsetup hplan' hpol => ?_, fun hpol hplan' p hp => ?_,
    fun hpol plan' hplan' p hp => ?_⟩
  · cases hsaw.symm.trans hearly
  · rcases recordReceivePlanHeader_ok hrecord with ⟨-, hnone⟩ | ⟨plan, hplan, -, -, hrecorded⟩
    · cases hnone.symm.trans hplan'
    · obtain rfl := Option.some.inj (hrecorded.symm.trans hplan')
      exact (h.plan plan hplan).recorded _
  · obtain ⟨hrelative, hfind⟩ := hentry setup hsetup
    rcases recordReceivePlanHeader_ok hrecord with ⟨-, hnone⟩ | ⟨plan, -, -, ⟨planned, hplanned⟩, hrecorded⟩
    · cases hnone.symm.trans hplan'
    · obtain rfl := Option.some.inj (hrecorded.symm.trans hplan')
      refine ⟨by simp [hrelative], ?_⟩
      rw [hfind, hrelative, find_of_recorded hrecord, hplanned]
      simp
  · obtain ⟨hrelative, -⟩ := hentry setup hsetup
    rcases recordReceivePlanHeader_ok hrecord with ⟨hnone, -⟩ | ⟨_, -, -, -, hrecorded⟩
    · rw [hrelative]
      exact hguard hpol hnone
    · cases hplan'.symm.trans hrecorded
  · rcases recordReceivePlanHeader_ok hrecord with ⟨hnone, -⟩ | ⟨_, -, -, -, hrecorded⟩
    · obtain ⟨hpart, hstands⟩ := h.held hpol hnone p hp
      exact ⟨hpart, stands_step hdoes hpart hstands⟩
    · cases hplan'.symm.trans hrecorded
  · rcases recordReceivePlanHeader_ok hrecord with ⟨-, hnone⟩ | ⟨plan, hplan, hnew, -, hrecorded⟩
    · cases hnone.symm.trans hplan'
    · obtain rfl := Option.some.inj (hrecorded.symm.trans hplan')
      obtain ⟨relative, hmem, hat, -⟩ := h.by_plan hpol plan hplan p hp
      refine ⟨relative, List.mem_append_left _ hmem, hat, fun setup hsetup heq => ?_⟩
      rw [(hentry setup hsetup).1] at heq
      exact hnew (heq ▸ hmem)

/-- What follows is about the entry that is open, and may end it. -/
theorem Guarded.live_other (h : Guarded env root t s landed) (hagree : Agrees env t root) (hsane : Sane t)
    (hsound : s.Sound env) (hdoes : s.Does env root f s') (hagree' : Agrees env s'.disk.tree root)
    (hsane' : Sane s'.disk.tree) (hover : s.phase.over = false) (hplan : s'.plan = s.plan)
    (hsaw : s'.sawFileHeader = s.sawFileHeader) (hearly : s.sawFileHeader = false → s'.disk = s.disk)
    (hentry : ∀ setup', s'.phase.setup? = some setup' → ∃ setup, s.phase.setup? = some setup ∧
      setup'.planned = setup.planned ∧ setup'.relative = setup.relative) :
    Live env root t s' (noteLanded env landed s f s') := by
  have hlive := h.live hover
  have hheld {p : Place} (hpol : env.policy = .rename) (hnone : s.plan = none) (hp : p ∈ landed) :
      ¬ PartPlace p ∧ s'.disk.tree p ≠ none := by
    obtain ⟨hpart, hstands⟩ := hlive.held hpol hnone p hp
    exact ⟨hpart, stands_step hdoes hpart hstands⟩
  have hby {p : Place} {plan : ReceivePlan} (hpol : env.policy = .rename) (hsome : s.plan = some plan) (hp : p ∈ landed) :
      ∃ relative ∈ plan.receivedPaths, PlannedAt env root plan relative p ∧
        ∀ setup', s'.phase.setup? = some setup' → setup'.relative ≠ relative := by
    obtain ⟨relative, hmem, hat, hne⟩ := hlive.by_plan hpol plan hsome p hp
    refine ⟨relative, hmem, hat, fun setup' hsetup' => ?_⟩
    obtain ⟨setup, hsetup, -, hrelative⟩ := hentry setup' hsetup'
    rw [hrelative]
    exact hne setup hsetup
  -- The parts of `Live`, in the order of its fields: each survives a step that opens no entry.
  refine ⟨fun hno => ?_, fun plan hsome => hlive.plan plan (hplan ▸ hsome), fun setup' hsetup' => ?_,
    fun setup' hsetup' plan hsome => ?_, fun setup' hsetup' hnone hpol => ?_, fun hpol hnone p hp => ?_,
    fun hpol plan hsome p hp => ?_⟩
  · rw [noteLanded_early hsound (hsaw ▸ hno), hearly (hsaw ▸ hno)]
    exact hlive.early (hsaw ▸ hno)
  · obtain ⟨setup, hsetup, hplanned, hrelative⟩ := hentry setup' hsetup'
    rw [hplanned, hplan, hrelative]
    exact hlive.planned setup hsetup
  · obtain ⟨setup, hsetup, hplanned, hrelative⟩ := hentry setup' hsetup'
    rw [hplanned, hrelative]
    exact hlive.listed setup hsetup plan (hplan ▸ hsome)
  · obtain ⟨setup, hsetup, -, hrelative⟩ := hentry setup' hsetup'
    rw [hrelative]
    exact hlive.named setup hsetup (hplan ▸ hnone) hpol
  · rcases noteLanded_cases landed hagree' hsane' hdoes with heq | ⟨setup, rel, hends, heq, hlook, hsome, hlast⟩
    · exact hheld hpol (hplan ▸ hnone) (heq ▸ hp)
    · rw [heq] at hp
      rcases List.mem_append.mp hp with hp | hp
      · exact hheld hpol (hplan ▸ hnone) hp
      · rw [List.mem_singleton.mp hp]
        exact ⟨(h.fresh_step hagree hsane hpol hends hlook hlast).2.2.1 (hplan ▸ hnone), hsome⟩
  · rw [hplan] at hsome
    rcases noteLanded_cases landed hagree' hsane' hdoes with heq | ⟨setup, rel, hends, heq, hlook, -, hlast⟩
    · exact hby hpol hsome (heq ▸ hp)
    · rw [heq] at hp
      rcases List.mem_append.mp hp with hp | hp
      · exact hby hpol hsome hp
      · rw [List.mem_singleton.mp hp]
        obtain ⟨-, hsetup⟩ := over_of_target hends.entry
        refine ⟨setup.relative, (hlive.listed setup hsetup plan hsome).1,
          (h.fresh_step hagree hsane hpol hends hlook hlast).2.2.2 plan hsome, fun setup' hsetup' => ?_⟩
        cases hends.after.symm.trans hsetup'

/-- **Every step keeps it.** -/
theorem Guarded.step (h : Guarded env root t s landed) (hagree : Agrees env t root) (hsane : Sane t)
    (hpol : env.policy ≠ .overwrite) (hguard : NoPartNames env s f) (hsound : s.Sound env)
    (hs : Intake.Step env s f s') : Guarded env root t s' (noteLanded env landed s f s') := by
  have hagree₀ := agrees_of_kept hagree h.kept
  obtain ⟨hplaced, hdoes⟩ := h.placed.step hagree₀ hsound hs
  have hturn := h.placed.turn hagree₀ hsound hs
  have hkept : ∀ p node, t p = some node →
      s'.disk.tree p = some node ∨ PartPlace p ∧ ∃ content, node = .file content :=
    fun p node => h.kept_step hagree hsane hpol hdoes
  have hagree' := agrees_of_kept hagree hkept
  refine ⟨hplaced, hkept, fun hrename p hp => ?_, fun hrename => ?_, fun hover' => ?_⟩
  · rcases noteLanded_cases landed hagree' hplaced.sane hdoes with heq | ⟨setup, rel, hends, heq, hlook, -, hlast⟩
    · exact h.fresh hrename p (heq ▸ hp)
    · rw [heq] at hp
      rcases List.mem_append.mp hp with hp | hp
      · exact h.fresh hrename p hp
      · rw [List.mem_singleton.mp hp]
        exact (h.fresh_step hagree hsane hrename hends hlook hlast).1
  · rcases noteLanded_cases landed hagree' hplaced.sane hdoes with heq | ⟨setup, rel, hends, heq, hlook, -, hlast⟩
    · rw [heq]
      exact h.own hrename
    · rw [heq, List.nodup_append]
      refine ⟨h.own hrename, by simp, fun p hp q hq hsame => ?_⟩
      rw [List.mem_singleton.mp hq] at hsame
      exact (h.fresh_step hagree hsane hrename hends hlook hlast).2.1 (hsame ▸ hp)
  · cases hturn with
    | manifest hearly hearly' hmade hplan hphase htree =>
      rw [hphase] at hover'
      rw [noteLanded_early hsound hearly]
      exact (h.live hover').manifest hsound hover' hearly hmade hplan hphase htree
    | header hframe hidle hrecorded hsaw hentry =>
      subst hframe
      have hlive := h.live (by rw [hidle]; rfl)
      exact hlive.header hguard hrecorded hsaw hentry hdoes
    | other hplan hover hsaw hearly hentry =>
      have hover₀ : s.phase.over = false := by
        by_contra hne
        rw [hover (by simpa using hne)] at hover'
        cases hover'
      exact h.live_other hagree hsane hsound hdoes hagree' hplaced.sane hover₀ hplan (hsaw hover') hearly hentry

end Steps

/-! ## Runs

The condition on the steps is the one of `Kiko.Transfer.Containment`, and the names of partial
files are left out where there is no plan. -/

/-- At the start nothing has happened. -/
theorem guarded_start (env : ReceiveEnv) (root : Place) (d : Disk) (hsane : Sane d.tree) :
    Guarded env root d.tree { disk := d } [] := by
  refine ⟨⟨hsane, fun _ _ hfind => ?_, trivial⟩, fun _ _ hp => .inl hp, by simp, by simp, fun _ => ?_⟩
  · cases hfind
  · exact ⟨fun _ => ⟨rfl, rfl⟩, nofun, nofun, nofun, nofun, by simp, by simp⟩

/-- **Skip and rename protect what was there.** Where the output directory as it is spelled is
    where its normal form leads, and names for partial files are left to manifests, both loops
    leave every file as it was, whatever is sent to them and wherever they stop; and what is
    renamed has a place of its own, that was free. -/
theorem protectsExisting (env : ReceiveEnv) (root : Place) (d : Disk) (s : Intake) (landed : List Place)
    (hpol : env.policy ≠ .overwrite) (hsane : Sane d.tree) (hagree : Agrees env d.tree root)
    (hr : ReceivedUnder env (NoPartNames env) (noteLanded env) [] d s landed) :
    ProtectsExisting env d.tree s.disk.tree landed := by
  have h : Guarded env root d.tree s landed :=
    hr.invariant (I := fun s landed => Guarded env root d.tree s landed) (guarded_start env root d hsane)
      fun hsound _ h hguard hs => h.step hagree hsane hpol hguard hsound hs
  refine ⟨fun p content hp hpart => ?_, h.fresh, h.own⟩
  exact (h.kept p _ hp).resolve_right fun hplace => hpart hplace.1

/-- A receiver that renames, into `/out`. -/
def renameEnv : ReceiveEnv := { sampleEnv with policy := .rename }

/-- The header of a file that says `hi!`. -/
def hiHeader (path : String) : Frame :=
  .fileHeader { type := "file", fields := [("path", path), ("size", "3"), ("compress", "none")] }

def hiEnd : Frame := .fileEnd (endMessage (samplePrims.sha256Hex [104, 105, 33]))

/-- The file is sent from its beginning. -/
def hiWhole (path : String) : List Frame :=
  [hiHeader path, .resumeAck (resumeAckMessage 0), .data [104, 105, 33], hiEnd]

/-- There is a file `hi.txt` in the output directory. -/
def hiDisk : Disk where
  tree place :=
    if place = ["out"] then some .dir else if place = ["out", "hi.txt"] then some (.file [1]) else none

theorem hiDisk_sane : Sane hiDisk.tree := by
  refine ⟨fun {p part} hp => ?_, fun {p target} hp => ?_⟩
  · simp only [hiDisk] at hp
    split_ifs at hp with hout hhi
    · obtain rfl : p = [] := by simpa using congrArg List.dropLast hout
      rfl
    · obtain rfl : p = ["out"] := by simpa using congrArg List.dropLast hhi
      rfl
    · exact absurd rfl hp
  · simp only [hiDisk] at hp
    split_ifs at hp
    · cases hp
    · cases hp

theorem hiDisk_agrees : Agrees renameEnv hiDisk.tree ["out"] :=
  ⟨rfl, by decide, ofString "/out", by decide, by decide⟩

/-- The file that is there stays, and the one that comes goes beside it. -/
theorem protectsExisting_sample : ∃ s landed,
    ReceivedUnder renameEnv (NoPartNames renameEnv) (noteLanded renameEnv) [] hiDisk s landed ∧
      landed = [["out", "hi (1).txt"]] ∧ ProtectsExisting renameEnv hiDisk.tree s.disk.tree landed := by
  obtain ⟨⟨r, landed⟩, hr, hlanded⟩ := Lts.ReachUnder.exists_of_run
    (track (StreamRecv.next renameEnv) (fun _ input => StreamInput.seen input)
      (@StreamRecv.intake storedStream) (noteLanded renameEnv))
    (fun s input => NoPartNames renameEnv s.1.intake (StreamInput.seen input))
    ({ loop := { disk := hiDisk } }, []) ((hiWhole "hi.txt" ++ [Frame.done]).map .frame)
    (fun s => s.2 = [["out", "hi (1).txt"]]) (by decide +kernel) (by decide +kernel)
  have hrun := ReceivedUnder.stream hr
  exact ⟨_, landed, hrun, by simpa using hlanded,
    protectsExisting renameEnv ["out"] hiDisk _ landed (by decide) hiDisk_sane hiDisk_agrees hrun⟩

/-- `x.kikopart`, then `x`, which goes on with it as its partial file, then `x.kikopart` again: the
    first and the third come to one place, and the first is lost. -/
theorem rename_reuses : ∃ s landed,
    ReceivedUnder renameEnv (fun _ _ => True) (noteLanded renameEnv) [] hiDisk s landed ∧ s.phase = .finished ∧
      landed = [["out", "x.kikopart"], ["out", "x"], ["out", "x.kikopart"]] ∧
      ¬ ProtectsExisting renameEnv hiDisk.tree s.disk.tree landed := by
  obtain ⟨⟨r, landed⟩, hr, hlanded⟩ := Lts.ReachUnder.exists_of_run
    (track (StreamRecv.next renameEnv) (fun _ input => StreamInput.seen input)
      (@StreamRecv.intake storedStream) (noteLanded renameEnv))
    (fun _ _ => True) ({ loop := { disk := hiDisk } }, [])
    ((hiWhole "x.kikopart" ++ [hiHeader "x", .resumeAck (resumeAckMessage 3), hiEnd] ++
      hiWhole "x.kikopart" ++ [Frame.done]).map .frame)
    (fun s => s.1.intake.phase = .finished ∧ s.2 = [["out", "x.kikopart"], ["out", "x"], ["out", "x.kikopart"]])
    (by decide +kernel) Lts.meets_true
  simp only [decide_eq_true_eq] at hlanded
  obtain ⟨hfinished, rfl⟩ := hlanded
  refine ⟨_, _, .stream hr, hfinished, rfl, fun h => ?_⟩
  exact absurd (h.own rfl) (by decide)

end Kiko.Transfer
