import Kiko.Transfer.Containment
import Kiko.Transfer.Targets

/-!
# The paths a plan writes to

A file is received under a partial name beside its target. The plan compares targets with each
other, and of partial names it knows nothing: what it accepts never writes two targets to one
place, and one partial file may stand where another entry is to go (`part_collides`). Where none
does, all the paths that are written are apart (`pathsApart_iff`), and what an entry has come to
stays, whatever is received after it and in whatever order (`plan_sound`).

Two paths can be one place without being one text, and one can be on the way to the other; both
are said by their names (`SamePath`, `OnTheWay`), which is what the source compares after it has
normalized them. The source compares every target that it reserves with those reserved before,
and with the directories on the way to them. What it leaves out are the partial names, since
they are made up only when the entry is opened. So the property is an equivalence: the plan does
its part always, and the rest is `PartsClear`, a condition on the destinations alone.

That what an entry has come to stays is a matter of the run and not of the plan: it needs in
addition that nothing else is written than the paths of the plan (`Intake.Step.writes`), and
that a directory that was made for one entry is not replaced for another
(`Intake.Step.grounded`).
-/

set_option autoImplicit false

namespace Kiko.Transfer

open Lexical FileTree FsPath Effect

/-! ## Paths by their names

The names of a path, without `.` and without empty ones. Below the output directory they
determine the place, as long as there are no links on the way, which the checks of the receiver
see to. -/

/-- Both paths go down the same names. -/
def SamePath (p q : FsPath) : Prop := names p.parts = names q.parts

/-- The one path is on the way to the other. -/
def OnTheWay (p q : FsPath) : Prop := names p.parts <+: names q.parts ∧ ¬ SamePath p q

section Names

variable {p q : FsPath} {parts above front : List String}

theorem names_last (parts : List String) : names parts = names parts.dropLast ++
    if isSkip (parts.getLast?.getD "") then [] else [parts.getLast?.getD ""] := by
  rcases List.eq_nil_or_concat parts with rfl | ⟨init, last, rfl⟩
  · rfl
  · rw [List.concat_eq_append, names_concat, List.dropLast_concat, List.getLast?_concat, Option.getD_some]

theorem names_partPath (p : FsPath) : names (partPathFor p).parts =
    names p.parts.dropLast ++ [p.parts.getLast?.getD "" ++ ".kikopart"] := by
  have hskip : isSkip (p.parts.getLast?.getD "" ++ ".kikopart") = false := by
    simp only [isSkip, Bool.or_eq_false_iff, decide_eq_false_iff_not]
    exact ⟨partName_ne _ (Nat.lt_of_lt_of_le (by decide) (Nat.le_add_left 9 _)),
      partName_ne _ (Nat.lt_of_lt_of_le (by decide) (Nat.le_add_left 9 _))⟩
  rw [partPathFor, FsPath.concat, names_concat, if_neg (by simp [hskip])]

/-- Files of one partial path have one target. -/
theorem samePath_of_parts (h : SamePath (partPathFor p) (partPathFor q)) : SamePath p q := by
  rw [SamePath, names_partPath, names_partPath] at h
  obtain ⟨habove, hlast⟩ := List.append_inj' h rfl
  have hname : p.parts.getLast?.getD "" = q.parts.getLast?.getD "" := by
    have htext := congrArg String.toList (List.cons.inj hlast).1
    rw [String.toList_append, String.toList_append] at htext
    exact String.toList_inj.mp (List.append_cancel_right htext)
  rw [SamePath, names_last p.parts, names_last q.parts, habove, hname]

/-- What is on the way to a partial file is on the way to its target, or is the target. -/
theorem onTheWay_of_part (h : OnTheWay p (partPathFor q)) : names p.parts <+: names q.parts := by
  obtain ⟨hway, hne⟩ := h
  rw [SamePath, names_partPath] at hne
  rw [names_partPath] at hway
  rw [names_last q.parts]
  exact ((List.prefix_concat_iff.mp hway).resolve_left hne).trans (List.prefix_append ..)

/-- Names on the way are come to by the parts on the way. -/
theorem exists_front (h : above <+: names parts) (hne : above ≠ names parts) :
    ∃ front, front <+: parts ∧ front ≠ parts ∧ names front = above ∧ front.getLast? = above.getLast? := by
  induction parts generalizing above with
  | nil => exact absurd (List.prefix_nil.mp h) hne
  | cons part rest ih =>
    cases above with
    | nil => exact ⟨[], List.nil_prefix, by simp, rfl, rfl⟩
    | cons name above =>
      rw [names_cons] at h hne
      by_cases hskip : isSkip part = true
      · rw [if_pos hskip] at h hne
        obtain ⟨front, hfront, hshort, hnames, hlast⟩ := ih h hne
        refine ⟨part :: front, List.cons_prefix_cons.mpr ⟨rfl, hfront⟩, by simpa using hshort, ?_, ?_⟩
        · rw [names_cons, if_pos hskip, hnames]
        · rw [List.getLast?_cons, hlast, List.getLast?_cons]
          rfl
      · rw [if_neg hskip] at h hne
        obtain ⟨rfl, habove⟩ := List.cons_prefix_cons.mp h
        obtain ⟨front, hfront, hshort, hnames, hlast⟩ := ih habove fun heq => hne (heq ▸ rfl)
        refine ⟨name :: front, List.cons_prefix_cons.mpr ⟨rfl, hfront⟩, by simpa using hshort, ?_, ?_⟩
        · rw [names_cons, if_neg hskip, hnames]
        · rw [List.getLast?_cons, hlast, List.getLast?_cons]

theorem mem_properPrefixes (h : front <+: p.parts) (hne : front ≠ p.parts) :
    { p with parts := front } ∈ p.properPrefixes := by
  refine List.mem_map.mpr ⟨front, ?_, rfl⟩
  rcases List.eq_nil_or_concat p.parts with hnil | ⟨init, last, hparts⟩
  · rw [hnil] at h hne
    exact absurd (List.prefix_nil.mp h) hne
  · rw [List.concat_eq_append] at hparts
    rw [hparts] at h hne ⊢
    have hinits : (init ++ [last]).inits.dropLast = init.inits := by
      rw [List.inits_append]
      simp
    rw [hinits, List.mem_inits]
    exact (List.prefix_concat_iff.mp h).resolve_left hne

end Names

/-! ## Targets that were reserved

`targetKey` is the key in the set of the code. Two targets with different keys differ in their
names, and the check for obstacles compares whole names, never pieces of them. -/

section Keys

variable {env : ReceiveEnv} {p q : FsPath} {rel rel' : List String} {a b : String × ReceivePlanEntry}

/-- Below the output directory a normal form goes on by names. -/
theorem targetKey_below (hb : Below env p rel) (hne : names rel ≠ []) : targetKey p =
    { isAbsolute := env.outputDir.isAbsolute
      parts := normalParts env.outputDir.isAbsolute [] env.outputDir.parts ++ names rel } := by
  have hparts : normalParts p.isAbsolute [] p.parts =
      normalParts env.outputDir.isAbsolute [] env.outputDir.parts ++ names rel := by
    rw [hb.absolute, ← normalParts_names _ _ p.parts, hb.names, normalParts_append, normalParts_names,
      normalParts_names, normalParts_of_no_up hb.no_up, List.reverse_reverse]
  rw [targetKey, if_neg (by simp), stripped_normal hb.parts_ne, hparts, if_neg (by simp [hne]), hb.absolute]

/-- Two paths below the output directory, by what is below it. -/
theorem onTheWay_below (hb : Below env p rel) (hb' : Below env q rel') (h : OnTheWay p q) :
    names rel <+: names rel' ∧ names rel ≠ names rel' := by
  obtain ⟨hway, hne⟩ := h
  rw [SamePath, hb.names, hb'.names] at hne
  rw [hb.names, hb'.names] at hway
  exact ⟨(List.prefix_append_right_inj _).mp hway, fun heq => hne (heq ▸ rfl)⟩

/-- No target that is reserved later is below a file's. -/
theorem Unobstructed.not_below (h : Unobstructed a b) (ha : a.2.action ≠ .skip) (hb : b.2.action ≠ .skip)
    (hkind : a.2.manifest.kind ≠ "dir") (hbelow : Below env a.2.targetPath rel) (hne : names rel ≠ [])
    (hbelow' : Below env b.2.targetPath rel') : ¬ OnTheWay a.2.targetPath b.2.targetPath := by
  intro hway
  obtain ⟨front, hfront, hshort, hnames, hlast⟩ := exists_front hway.1 hway.2
  have hparent : Below env { b.2.targetPath with parts := front } (names rel) := by
    refine ⟨hbelow'.absolute, ?_, ?_, hne, ?_⟩
    · show names front = _
      rw [hnames, hbelow.names, names_names]
    · show front.getLast? = _
      rw [hlast, hbelow.names, List.getLast?_append_of_ne_nil _ hne]
    · intro hup
      exact hbelow.no_up (List.mem_of_mem_filter hup)
  have hempty : FsPath.isEmpty { b.2.targetPath with parts := front } = false := by
    simp [FsPath.isEmpty, hparent.parts_ne]
  refine (h ha hb).1 hkind _ (mem_properPrefixes hfront hshort) hempty ?_
  exact targetKey_eq hparent hbelow (names_names rel)

/-- And none that has been reserved before. -/
theorem Unobstructed.not_above (h : Unobstructed b a) (ha : a.2.action ≠ .skip) (hb : b.2.action ≠ .skip)
    (hkind : a.2.manifest.kind ≠ "dir") (hbelow : Below env a.2.targetPath rel) (hne : names rel ≠ [])
    (hbelow' : Below env b.2.targetPath rel') : ¬ OnTheWay a.2.targetPath b.2.targetPath := by
  intro hway
  obtain ⟨hpre, hshort⟩ := onTheWay_below hbelow hbelow' hway
  have hne' : names rel' ≠ [] := by
    intro hnil
    rw [hnil] at hpre
    exact hne (List.prefix_nil.mp hpre)
  have hfree := (h hb ha).2 hkind
  rw [targetKey_below hbelow hne, targetKey_below hbelow' hne'] at hfree
  refine absurd hfree ?_
  simp [keyIsParentOf, FsPath.hasPrefix, hshort, hpre, List.prefix_append_right_inj]

end Keys

/-! ## What stands at a target

Whether an entry is skipped, renamed or written depends on what stands there when the plan is
made. Nothing is written in the place of a directory, and what is skipped is there. -/

section Stands

variable {env : ReceiveEnv} {root there : Place} {t : Tree} {p q target current : FsPath} {rel : List String}
  {reserved : List FsPath} {entry : TransferManifestEntry} {action : ReceivePlanAction} {node : Node Bytes}

/-- Where the path adds no name there is the output directory. -/
theorem status_here (hsane : Sane t) (hhere : look t (origin env.cwd env.outputDir) = some .dir)
    (hroot : resolve t env.cwd env.outputDir = some root) (hb : Below env p rel) (hnil : names rel = []) :
    env.symlinkStatus t p = some .dir := by
  have hlast : isSkip (rel.getLast?.getD "") = true := by
    rw [names_last rel] at hnil
    split_ifs at hnil with hskip
    · exact hskip
    · simp at hnil
  obtain ⟨part, hpart⟩ : ∃ part, rel.getLast? = some part := by
    cases hget : rel.getLast? with
    | none => exact absurd (List.getLast?_eq_none_iff.mp hget) hb.ne
    | some part => exact ⟨part, rfl⟩
  have hopen : endsOpen p = true := by
    rw [hpart, Option.getD_some] at hlast
    simp [endsOpen, hb.last, hpart, hlast]
  have horigin : origin env.cwd p = origin env.cwd env.outputDir := by rw [origin, origin, hb.absolute]
  have hwalk : walk t maxLinks (origin env.cwd env.outputDir) env.outputDir.parts = some root := by
    rw [resolve] at hroot
    split_ifs at hroot
    exact hroot
  have hresolve : resolve t env.cwd p = some root := by
    have hempty : p.isEmpty = false := by simp [FsPath.isEmpty, hb.parts_ne]
    rw [resolve, if_neg (by simp [hempty]), horigin, ← walk_names, hb.names, hnil, List.append_nil, walk_names, hwalk]
  rw [ReceiveEnv.symlinkStatus, lstat, locate, if_pos hopen, hresolve, Option.bind_some]
  exact hsane.dir_of_walk hhere hwalk

/-- Nothing that is written is to replace a directory. -/
theorem planAction_status (hb : Below env current rel)
    (h : env.planAction t reserved entry current = .ok (action, target)) (hkind : entry.kind ≠ "dir")
    (hskip : action ≠ .skip) : env.symlinkStatus t target ≠ some .dir := by
  by_cases hpol : env.policy = .overwrite
  · unfold ReceiveEnv.planAction at h
    rw [if_neg hkind, hpol] at h
    dsimp only at h
    split_ifs at h with hexists hdir
    · obtain ⟨rfl, rfl⟩ := Prod.mk.inj (Except.ok.inj h)
      exact hdir
    · obtain ⟨rfl, rfl⟩ := Prod.mk.inj (Except.ok.inj h)
      intro hdir
      simp [ReceiveEnv.pathExistsNoFollow, hdir] at hexists
  · rw [(planAction_ok hb h).2.2 hkind hpol hskip]
    simp

/-- What is skipped is there. -/
theorem planAction_skip (h : env.planAction t reserved entry current = .ok (.skip, target)) :
    env.policy = .skip ∧ env.pathExistsNoFollow t target = true := by
  unfold ReceiveEnv.planAction at h
  by_cases hdir : entry.kind = "dir"
  · rw [if_pos hdir] at h
    split at h <;> cases h
  rw [if_neg hdir] at h
  by_cases hexists : env.pathExistsNoFollow t current = true
  · rw [if_pos hexists] at h
    cases hpol : env.policy with
    | skip =>
      rw [hpol] at h
      obtain ⟨-, rfl⟩ := Prod.mk.inj (Except.ok.inj h)
      exact ⟨rfl, hexists⟩
    | rename =>
      rw [hpol] at h
      obtain ⟨_, -, h⟩ := exists_of_bind_ok h
      cases h
    | overwrite =>
      simp only [hpol] at h
      split_ifs at h
      cases h
  · rw [if_neg hexists] at h
    cases h

/-- Where nothing is renamed, what is not skipped is written under its own path. -/
theorem planAction_write (h : env.planAction t reserved entry current = .ok (action, target))
    (hpol : env.policy = .skip) (hskip : action ≠ .skip) : action = .write := by
  unfold ReceiveEnv.planAction at h
  rw [hpol] at h
  dsimp only at h
  split_ifs at h with hdir hexists
  · split at h
    · exact (Prod.mk.inj (Except.ok.inj h)).1.symm
    · exact (Prod.mk.inj (Except.ok.inj h)).1.symm
    · cases h
  · exact absurd (Prod.mk.inj (Except.ok.inj h)).1.symm hskip
  · exact (Prod.mk.inj (Except.ok.inj h)).1.symm

/-- The way to something that is there can be walked. -/
theorem walk_of_onTheWay (h : env.symlinkStatus t q = some node) (hway : OnTheWay p q)
    (habs : p.isAbsolute = q.isAbsolute) : ∃ there, walk t maxLinks (origin env.cwd p) p.parts = some there := by
  have horigin : origin env.cwd p = origin env.cwd q := by rw [origin, origin, habs]
  have hfront {parts : List String} {place : Place} (hpre : names p.parts <+: names parts)
      (hwalk : walk t maxLinks (origin env.cwd q) parts = some place) :
      ∃ there, walk t maxLinks (origin env.cwd p) p.parts = some there := by
    obtain ⟨rest, hrest⟩ := hpre
    rw [← walk_names, ← hrest, walk_append, walk_names] at hwalk
    obtain ⟨there, hthere, -⟩ := Option.bind_eq_some_iff.mp hwalk
    exact ⟨there, by rw [horigin, hthere]⟩
  rw [ReceiveEnv.symlinkStatus, lstat] at h
  obtain ⟨place, hplace, -⟩ := Option.bind_eq_some_iff.mp h
  by_cases hopen : endsOpen q = true
  · rw [locate, if_pos hopen, resolve] at hplace
    split_ifs at hplace
    exact hfront hway.1 hplace
  · rw [locate_of_named (by simpa using hopen)] at hplace
    obtain ⟨above, habove, -⟩ := Option.map_eq_some_iff.mp hplace
    refine hfront ?_ habove
    obtain ⟨hpre, hne⟩ := hway
    rw [SamePath, names_last q.parts] at hne
    rw [names_last q.parts] at hpre
    split_ifs at hpre hne
    · simpa using hpre
    · exact (List.prefix_concat_iff.mp hpre).resolve_left hne

/-- What can be walked is a directory, or a link. -/
theorem status_of_walk (hsane : Sane t) (hdir : look t (origin env.cwd p) = some .dir) (hempty : p.isEmpty = false)
    (hwalk : walk t maxLinks (origin env.cwd p) p.parts = some there) :
    env.symlinkStatus t p = some .dir ∨ ∃ target, env.symlinkStatus t p = some (.symlink target) := by
  rw [ReceiveEnv.symlinkStatus, lstat]
  by_cases hopen : endsOpen p = true
  · rw [locate, if_pos hopen, resolve, if_neg (by simp [hempty]), hwalk, Option.bind_some]
    exact .inl (hsane.dir_of_walk hdir hwalk)
  · have hopen' : endsOpen p = false := by simpa using hopen
    obtain ⟨init, last, hparts, hname, hfile⟩ := parts_of_named hopen'
    rw [hparts, walk_append] at hwalk
    obtain ⟨above, habove, hlast⟩ := Option.bind_eq_some_iff.mp hwalk
    rw [locate_of_named hopen', hparts, List.dropLast_concat, habove, hfile, Option.map_some, Option.bind_some, look,
      if_neg (by simp)]
    rcases (walk_name hname).mp hlast with ⟨hstands, -⟩ | ⟨_, target, -, hstands, -⟩
    · exact .inl hstands
    · exact .inr ⟨target, hstands⟩

end Stands

/-! ## The paths of a plan

An entry that is written has one path if it is a link and two if it is a file, its target and
its partial file. Directories have none: to make one where one stands is no conflict. -/

/-- The paths at which receiving an entry creates or rewrites a file or a link. -/
def ReceivePlanEntry.filePaths (entry : ReceivePlanEntry) : List FsPath :=
  if entry.action = .skip ∨ entry.manifest.kind = "dir" then []
  else if entry.manifest.kind = "file" then [entry.targetPath, partPathFor entry.targetPath]
  else [entry.targetPath]

/-- These paths are distinct, and none is on the way to a path of another entry. -/
structure PathsApart (entries : List ReceivePlanEntry) : Prop where
  distinct : ∀ a ∈ entries, ∀ b ∈ entries, a ≠ b → ∀ p ∈ a.filePaths, ∀ q ∈ b.filePaths, ¬ SamePath p q
  clear : ∀ a ∈ entries, ∀ b ∈ entries, a ≠ b → ∀ p ∈ a.filePaths, ∀ q ∈ b.targetPath :: b.filePaths,
    ¬ OnTheWay p q

/-- Where the entries of a manifest go, one after the other, with what has been reserved before. -/
def ReceiveEnv.destinations (env : ReceiveEnv) (t : Tree) :
    List FsPath → List TransferManifestEntry → List ReceivePlanEntry
  | _, [] => []
  | reserved, entry :: rest =>
    match safeJoin env.outputDir entry.path >>= env.planAction t reserved entry with
    | .ok (action, target) =>
      { manifest := entry, targetPath := target, action := action } ::
        env.destinations t (if action = .skip then reserved else targetKey target :: reserved) rest
    | .error _ => []

/-- No partial file of these is where another file or link is to go, or on the way to another entry. -/
def PartsClear (entries : List ReceivePlanEntry) : Prop :=
  ∀ a ∈ entries, ∀ b ∈ entries, a ≠ b → a.action ≠ .skip → a.manifest.kind = "file" → b.action ≠ .skip →
    ¬ OnTheWay (partPathFor a.targetPath) b.targetPath ∧
      (b.manifest.kind ≠ "dir" → ¬ SamePath (partPathFor a.targetPath) b.targetPath)

section Plan

variable {env : ReceiveEnv} {root : Place} {t : Tree} {manifest : TransferManifest} {plan : ReceivePlan}
  {summary : ReceivePlanSummary} {a b : String × ReceivePlanEntry} {p : FsPath}

theorem mem_filePaths {entry : ReceivePlanEntry} : p ∈ entry.filePaths ↔ entry.action ≠ .skip ∧
    entry.manifest.kind ≠ "dir" ∧
      (p = entry.targetPath ∨ entry.manifest.kind = "file" ∧ p = partPathFor entry.targetPath) := by
  unfold ReceivePlanEntry.filePaths
  split_ifs with hnone hfile
  · rcases hnone with hskip | hdir
    · simp [hskip]
    · simp [hdir]
  · simp_all
  · simp_all

/-- The rounds choose the destinations. -/
theorem rounds_destinations {entries : List TransferManifestEntry} {st st' : Preflight}
    (hr : entries.foldlM (env.planEntry t) st = .ok st') : st'.plan.entries.map (·.2) =
      st.plan.entries.map (·.2) ++ env.destinations t st.reservedTargets entries := by
  induction entries generalizing st with
  | nil =>
    obtain rfl := Except.ok.inj hr
    exact (List.append_nil _).symm
  | cons entry rest ih =>
    rw [List.foldlM_cons] at hr
    obtain ⟨st₁, hround, hrest⟩ := exists_of_bind_ok hr
    obtain ⟨-, planned, rfl, -, ⟨current, hjoin, haction⟩, hentered⟩ := planEntry_ok hround
    have hreserved : st₁.reservedTargets =
        if planned.action = .skip then st.reservedTargets else targetKey planned.targetPath :: st.reservedTargets := by
      rcases hentered.reserved with ⟨hskip, hsame, -⟩ | ⟨hwritten, -, hcons, -⟩
      · rw [hsame, if_pos hskip]
      · rw [hcons, if_neg hwritten]
    have hbind : (safeJoin env.outputDir planned.manifest.path >>= env.planAction t st.reservedTargets planned.manifest) =
        .ok (planned.action, planned.targetPath) := by
      rw [hjoin]
      exact haction
    rw [ih hrest, hentered.entries, ReceiveEnv.destinations, hbind, hreserved]
    simp

theorem preflight_destinations (h : env.preflight t manifest = .ok (plan, summary)) :
    plan.entries.map (·.2) = env.destinations t [] manifest.entries := by
  unfold ReceiveEnv.preflight at h
  extract_lets start at h
  obtain ⟨st, hrounds, h⟩ := exists_of_bind_ok h
  split_ifs at h
  obtain ⟨_, -, h⟩ := exists_of_bind_ok h
  rw [← (Prod.mk.inj (Except.ok.inj h)).1]
  exact rounds_destinations hrounds

/-- What `preflight` has seen to for two entries. -/
theorem preflight_pair (h : env.preflight t manifest = .ok (plan, summary)) (ha : a ∈ plan.entries)
    (hb : b ∈ plan.entries) (hne : a ≠ b) : Apart a b ∧ (Unobstructed a b ∨ Unobstructed b a) := by
  let eitherWay (a b : String × ReceivePlanEntry) : Prop := Unobstructed a b ∨ Unobstructed b a
  have hsymm : Std.Symm eitherWay := ⟨fun _ _ => Or.symm⟩
  have hpairs : plan.entries.Pairwise eitherWay := (preflight_unobstructed h).imp Or.inl
  exact ⟨(preflight_made h).apart.forall ha hb hne, hpairs.forall ha hb hne⟩

variable (hsane : Sane t) (hhere : look t (origin env.cwd env.outputDir) = some .dir)
  (hroot : resolve t env.cwd env.outputDir = some root)

include hsane hhere hroot in
/-- What is written goes below the output directory, not in its place. -/
theorem PlannedFor.names_ne (h : PlannedFor env t a.2) (hkind : a.2.manifest.kind ≠ "dir") (hskip : a.2.action ≠ .skip)
    {rel : List String} (hb : Below env a.2.targetPath rel) : names rel ≠ [] := by
  intro hnil
  obtain ⟨reserved, current, hjoin, haction⟩ := h.target
  exact planAction_status (below_of_safeJoin hjoin) haction hkind hskip (status_here hsane hhere hroot hb hnil)

include hsane hhere hroot in
/-- No file's target is on the way to the target of another entry that is written. -/
theorem target_clear (h : env.preflight t manifest = .ok (plan, summary)) (ha : a ∈ plan.entries)
    (hb : b ∈ plan.entries) (hne : a ≠ b) (hwritten : a.2.action ≠ .skip) (hkind : a.2.manifest.kind ≠ "dir")
    (hwritten' : b.2.action ≠ .skip) : ¬ OnTheWay a.2.targetPath b.2.targetPath := by
  have hplanned := (preflight_made h).planned a ha
  obtain ⟨rel, hbelow, -⟩ := hplanned.below
  obtain ⟨rel', hbelow', -⟩ := ((preflight_made h).planned b hb).below
  have hnames := hplanned.names_ne hsane hhere hroot hkind hwritten hbelow
  rcases (preflight_pair h ha hb hne).2 with hafter | hbefore
  · exact hafter.not_below hwritten hwritten' hkind hbelow hnames hbelow'
  · exact hbefore.not_above hwritten hwritten' hkind hbelow hnames hbelow'

/-- Targets that are written are distinct. -/
theorem target_distinct (h : env.preflight t manifest = .ok (plan, summary)) (ha : a ∈ plan.entries)
    (hb : b ∈ plan.entries) (hne : a ≠ b) (hwritten : a.2.action ≠ .skip) (hwritten' : b.2.action ≠ .skip) :
    ¬ SamePath a.2.targetPath b.2.targetPath := by
  intro hsame
  obtain ⟨rel, hbelow, -⟩ := ((preflight_made h).planned a ha).below
  obtain ⟨rel', hbelow', -⟩ := ((preflight_made h).planned b hb).below
  rw [SamePath, hbelow.names, hbelow'.names] at hsame
  exact (preflight_pair h ha hb hne).1 hwritten hwritten' (targetKey_eq hbelow hbelow' (List.append_cancel_left hsame))

include hsane hhere in
/-- What is skipped is there, so that nothing can be made on the way to it. -/
theorem skipped_clear (h : env.preflight t manifest = .ok (plan, summary)) (ha : a ∈ plan.entries)
    (hb : b ∈ plan.entries) (hskip : b.2.action = .skip) (hp : p ∈ a.2.filePaths) :
    ¬ OnTheWay p b.2.targetPath := by
  intro hway
  obtain ⟨hwritten, hkind, hpath⟩ := mem_filePaths.mp hp
  have hplanned := (preflight_made h).planned a ha
  obtain ⟨rel, hbelow, -⟩ := hplanned.below
  obtain ⟨rel', hbelow', -⟩ := ((preflight_made h).planned b hb).below
  obtain ⟨reserved, current, hjoin, haction⟩ := hplanned.target
  obtain ⟨reserved', current', -, haction'⟩ := ((preflight_made h).planned b hb).target
  rw [hskip] at haction'
  obtain ⟨hpol, hexists⟩ := planAction_skip haction'
  obtain ⟨node, hnode⟩ := Option.isSome_iff_exists.mp hexists
  have habs : p.isAbsolute = env.outputDir.isAbsolute := by
    rcases hpath with rfl | ⟨-, rfl⟩
    · exact hbelow.absolute
    · exact hbelow.absolute
  have hempty : p.isEmpty = false := by
    rcases hpath with rfl | ⟨-, rfl⟩
    · simp [FsPath.isEmpty, hbelow.parts_ne]
    · simp [FsPath.isEmpty, partPathFor, FsPath.concat]
  obtain ⟨there, hwalk⟩ := walk_of_onTheWay hnode hway (habs.trans hbelow'.absolute.symm)
  have hdir : look t (origin env.cwd p) = some .dir := by rwa [origin, habs, ← origin]
  have hstands := status_of_walk hsane hdir hempty hwalk
  rcases hpath with rfl | ⟨hfile, rfl⟩
  · rw [(planAction_ok (below_of_safeJoin hjoin) haction).2.2 hkind (by simp [hpol]) hwritten] at hstands
    simp at hstands
  · have hvalid := hplanned.part (planAction_write haction hpol hwritten) hfile
    unfold ReceiveEnv.validateReceivePartPath at hvalid
    rcases hstands with hstat | ⟨target, hstat⟩
    · rw [hstat] at hvalid
      cases hvalid
    · rw [hstat] at hvalid
      cases hvalid

include hsane hhere hroot in
/-- **The paths of a plan are apart** where no partial file is in the way. -/
theorem pathsApart_iff (h : env.preflight t manifest = .ok (plan, summary)) :
    PathsApart (plan.entries.map (·.2)) ↔ PartsClear (env.destinations t [] manifest.entries) := by
  rw [← preflight_destinations h]
  constructor
  · intro hapart a ha b hb hne hwritten hfile hwritten'
    have hpart : partPathFor a.targetPath ∈ a.filePaths :=
      mem_filePaths.mpr ⟨hwritten, by simp [hfile], .inr ⟨hfile, rfl⟩⟩
    refine ⟨hapart.clear a ha b hb hne _ hpart _ (List.mem_cons_self ..), fun hkind => ?_⟩
    exact hapart.distinct a ha b hb hne _ hpart _ (mem_filePaths.mpr ⟨hwritten', hkind, .inl rfl⟩)
  · intro hclear
    have hpair {a b : ReceivePlanEntry} (ha : a ∈ plan.entries.map (·.2)) (hb : b ∈ plan.entries.map (·.2)) (hne : a ≠ b) :
        ∃ a' ∈ plan.entries, ∃ b' ∈ plan.entries, a' ≠ b' ∧ a'.2 = a ∧ b'.2 = b := by
      obtain ⟨a', ha', rfl⟩ := List.mem_map.mp ha
      obtain ⟨b', hb', rfl⟩ := List.mem_map.mp hb
      exact ⟨a', ha', b', hb', fun heq => hne (congrArg Prod.snd heq), rfl, rfl⟩
    have hdistinct {a b : ReceivePlanEntry} (ha : a ∈ plan.entries.map (·.2)) (hb : b ∈ plan.entries.map (·.2))
        (hne : a ≠ b) (hwritten : a.action ≠ .skip) (hwritten' : b.action ≠ .skip) :
        ¬ SamePath a.targetPath b.targetPath := by
      obtain ⟨a', ha', b', hb', hne', rfl, rfl⟩ := hpair ha hb hne
      exact target_distinct h ha' hb' hne' hwritten hwritten'
    constructor
    · intro a ha b hb hne p hp q hq hsame
      obtain ⟨hwritten, hkind, hp⟩ := mem_filePaths.mp hp
      obtain ⟨hwritten', hkind', hq⟩ := mem_filePaths.mp hq
      rcases hp with rfl | ⟨hfile, rfl⟩
      · rcases hq with rfl | ⟨hfile', rfl⟩
        · exact hdistinct ha hb hne hwritten hwritten' hsame
        · exact (hclear b hb a ha hne.symm hwritten' hfile' hwritten).2 hkind hsame.symm
      · rcases hq with rfl | ⟨hfile', rfl⟩
        · exact (hclear a ha b hb hne hwritten hfile hwritten').2 hkind' hsame
        · exact hdistinct ha hb hne hwritten hwritten' (samePath_of_parts hsame)
    · intro a ha b hb hne p hp q hq hway
      obtain ⟨a', ha', b', hb', hne', rfl, rfl⟩ := hpair ha hb hne
      obtain ⟨hwritten, hkind, hpath⟩ := mem_filePaths.mp hp
      by_cases hskip : b'.2.action = .skip
      · have hfree : b'.2.filePaths = [] := by simp [ReceivePlanEntry.filePaths, hskip]
        rw [hfree, List.mem_singleton] at hq
        exact skipped_clear hsane hhere h ha' hb' hskip hp (hq ▸ hway)
      -- what is on the way to a partial file is on the way to its target
      have hcases : OnTheWay p b'.2.targetPath ∨ SamePath p b'.2.targetPath ∧ b'.2.manifest.kind ≠ "dir" := by
        rcases List.mem_cons.mp hq with rfl | hq
        · exact .inl hway
        obtain ⟨-, hkind', rfl | ⟨-, rfl⟩⟩ := mem_filePaths.mp hq
        · exact .inl hway
        · by_cases hsame : SamePath p b'.2.targetPath
          · exact .inr ⟨hsame, hkind'⟩
          · exact .inl ⟨onTheWay_of_part hway, hsame⟩
      rcases hpath with rfl | ⟨hfile, rfl⟩
      · rcases hcases with hway | ⟨hsame, -⟩
        · exact target_clear hsane hhere hroot h ha' hb' hne' hwritten hkind hskip hway
        · exact hdistinct ha hb hne hwritten hskip hsame
      · obtain ⟨hfree, hfree'⟩ := hclear _ ha _ hb hne hwritten hfile hskip
        rcases hcases with hway | ⟨hsame, hkind'⟩
        · exact hfree hway
        · exact hfree' hkind' hsame

end Plan

/-! ## Where a step writes

Only files have partial files, and what is kept of a header's kind in a session says so
(`Filed`). From this a step that writes is seen to write at one of the two paths of its entry. -/

/-- If the entry is planned, then as a file. -/
def EntrySetup.IsFile (setup : EntrySetup) : Prop :=
  ∀ planned, setup.planned = some planned → planned.manifest.kind = "file"

/-- Only files have partial files. -/
def Phase.Filed : Phase → Prop
  | .await (.duplicate setup) | .await (.payload setup _ _ _) => setup.IsFile
  | .payload session _ _ | .received session => session.setup.IsFile
  | _ => True

section Filed

variable {env : ReceiveEnv} {root : Place} {plan : Option ReceivePlan} {header : Message} {setup : EntrySetup}
  {p : Pending} {phase next : Phase} {frame : Frame} {d d' : Disk} {s s' : Intake} {f : Option Frame}

theorem filed_of (h : phase.setup? = some setup) (hfile : setup.IsFile) : phase.Filed := by
  cases phase with
  | await p =>
    obtain rfl := Option.some.inj h
    cases p with
    | marker => trivial
    | conflictSkip => trivial
    | duplicate => exact hfile
    | payload => exact hfile
  | payload =>
    obtain rfl := Option.some.inj h
    exact hfile
  | received =>
    obtain rfl := Option.some.inj h
    exact hfile
  | _ => trivial

theorem prepare_filed (hagree : Agrees env d.tree root) (hplan : PlanPlaced env plan)
    (h : env.prepare plan header d = .ok p d') : (Phase.await p).Filed := by
  obtain ⟨⟨setup, current, hsetup, -, hsame⟩, -⟩ := prepare_keeps h
  obtain ⟨-, hplanned, -⟩ := entrySetup_spec hagree hplan hsetup
  simp only [ReceiveEnv.prepare, bind_tree, bind_check_ok] at h
  obtain ⟨setup', hsetup', h⟩ := h
  obtain rfl := Except.ok.inj (hsetup.symm.trans hsetup')
  split_ifs at h with hlink hdir
  · obtain ⟨current, marker, rfl⟩ := prepareSymlink_ok h
    trivial
  · obtain ⟨current, rfl⟩ := prepareDirectory_ok h
    trivial
  · refine filed_of (congrArg some hsame) fun planned hpl => ?_
    rw [(hplanned planned hpl).2, headerKind, if_neg hlink, if_neg hdir]

theorem settle_filed (hp : (Phase.await p).Sound env d.tree) (hm : (Phase.await p).Marked)
    (hf : (Phase.await p).Filed) (h : env.settle p frame d = .ok next d') : next.Filed := by
  obtain ⟨-, ⟨current, hsetup⟩, -⟩ := settle_keeps hp hm h
  obtain ⟨result, d₁, hack, hnext⟩ := bind_ok.mp h
  cases p with
  | marker setup marker =>
    simp only [ReceiveEnv.onAck, bind_check_ok] at hack
    obtain ⟨_, -, hack⟩ := hack
    obtain ⟨rfl, rfl⟩ := pure_ok.mp hack
    obtain ⟨rfl, -⟩ := pure_ok.mp hnext
    trivial
  | conflictSkip setup =>
    simp only [ReceiveEnv.onAck, bind_check_ok] at hack
    obtain ⟨_, -, hack⟩ := hack
    split_ifs at hack
    · exact absurd hack throw_ne_ok
    · obtain ⟨rfl, rfl⟩ := pure_ok.mp hack
      obtain ⟨rfl, -⟩ := pure_ok.mp hnext
      trivial
  | duplicate setup => exact filed_of hsetup hf
  | payload setup part hashed prefixSha256 => exact filed_of hsetup hf

theorem Intake.Step.filed (h : s.Placed env root) (hagree : Agrees env s.disk.tree root) (hs : s.Sound env)
    (hm : s.phase.Marked) (hf : s.phase.Filed) (hstep : Intake.Step env s f s') : s'.phase.Filed := by
  cases hstep with
  | manifest => exact hf
  | @header header recorded hphase hpath hrecord =>
    have hplan : PlanPlaced env recorded := fun relative planned hfind =>
      h.plan relative planned ((find_of_recorded hrecord relative).symm.trans hfind)
    rcases Intake.after_cases { s with plan := recorded, sawFileHeader := true } (env.prepare recorded header) .await
      with ⟨p, d, hprep, hafter⟩ | ⟨e, hafter⟩
    · rw [hafter]
      exact prepare_filed hagree hplan hprep
    · rw [hafter]
      trivial
  | @ack p frame hphase =>
    have hsound := hs.disk
    rw [hphase] at hm hsound hf
    rcases Intake.after_cases s (env.settle p frame) id with ⟨next, d, hsettle, hafter⟩ | ⟨e, hafter⟩
    · rw [hafter]
      exact settle_filed hsound hm hf hsettle
    · rw [hafter]
      trivial
  | @put f session out content content' next hphase hquiet hnext =>
    rw [hphase] at hf
    rcases hnext with rfl | rfl | ⟨e, rfl⟩
    · exact hf
    · exact hf
    · trivial
  | @marker setup marker trailer hphase =>
    rcases Intake.after_cases s (env.completeMarker setup marker) fun _ => .idle
      with ⟨_, d, -, hafter⟩ | ⟨e, hafter⟩
    · rw [hafter]
      trivial
    · rw [hafter]
      trivial
  | skipped hphase => trivial
  | @commit session trailer size actual hphase =>
    rcases Intake.after_cases s (env.completeReceived session (trailer.get "sha256") size actual) fun _ => .idle
      with ⟨_, d, -, hafter⟩ | ⟨e, hafter⟩
    · rw [hafter]
      trivial
    · rw [hafter]
      trivial
  | done hphase hall => trivial
  | stay hquiet => exact hf
  | fail => trivial

end Filed

section Writes

variable {env : ReceiveEnv} {root place : Place} {d : Disk} {s s' : Intake} {f : Option Frame} {setup : EntrySetup}
  {rel : List String} {part current : FsPath} {target : String}

/-- The partial file has its place by the names of its path. -/
theorem Opened.place_eq (h : Opened env root d.tree setup part) (hagree : Agrees env d.tree root)
    (hplace : locate d.tree env.cwd part = some place) :
    Intends setup ∧ part = partPathFor setup.currentPath ∧ ∃ rel, Below env part rel ∧ place = root ++ names rel := by
  obtain ⟨rfl, rel, haimed, hdesc⟩ := h
  have hb : Below env (partPathFor setup.currentPath) (rel.dropLast ++ [rel.getLast?.getD "" ++ ".kikopart"]) :=
    haimed.below.concat fun name => partName_ne name (Nat.lt_of_lt_of_le (by decide) (Nat.le_add_left 9 _))
  have hlocate := locate_of_descends hagree hb (by rwa [List.dropLast_concat])
  exact ⟨haimed.planned, rfl, _, hb, Option.some.inj (hplace.symm.trans hlocate)⟩

/-- A link goes to its target. -/
theorem linkPlace_below (hagree : Agrees env d.tree root) (hsane : Sane d.tree) (hb : Below env current rel)
    (hs : Straight d.tree root (names rel.dropLast)) (h : env.linkPlace current d = some place) :
    place = root ++ names rel := by
  obtain ⟨d', hmake, hbuilt, hdesc, -⟩ := createParent_below hagree hsane hb hs
  rw [ReceiveEnv.linkPlace, hmake] at h
  exact Option.some.inj (h.symm.trans (locate_of_descends (hagree.keeps hbuilt.tree.keeps) hb hdesc))

theorem completeMarker_lands (hagree : Agrees env d.tree root) (hsane : Sane d.tree)
    (hb : Below env setup.currentPath rel) :
    Ensures (fun d' => Changes (· = root ++ names rel) d.tree d'.tree) (fun _ _ => True)
      (env.completeMarker setup (.symlink target false)) d := by
  refine ensures_tree_bind (ensures_check_bind (.refl _ d.tree) fun _ hvalid => ?_)
  refine createSafeSymlink_changes.mono (fun d' h => h.mono fun p hp => ?_) fun _ _ _ h => h
  exact linkPlace_below hagree hsane hb (straight_of_valid hagree hb hvalid) hp.1

/-- The end of a link's entry changes what stands at its target. -/
theorem Intake.Step.lands (h : s.Placed env root) (hagree : Agrees env s.disk.tree root)
    (hphase : s.phase = .marker setup (.symlink target false)) (hstep : Intake.Step env s f s') :
    ∃ rel, Aimed env root s.disk.tree setup rel ∧
      Changes (· = root ++ names rel) s.disk.tree s'.disk.tree := by
  have hplaced := h.phase
  rw [hphase] at hplaced
  obtain ⟨rel, haimed⟩ := hplaced
  refine ⟨rel, haimed, ?_⟩
  cases hstep with
  | manifest hlate honce hdecode hplan =>
    obtain ⟨-, htree, -⟩ := preflightTransferManifest_ok hplan
    exact fun p => .inl (congrFun htree p)
  | header hidle => cases hphase.symm.trans hidle
  | ack hwait => cases hphase.symm.trans hwait
  | put hpayload => cases hphase.symm.trans hpayload
  | @marker setup' marker trailer hmarker =>
    obtain ⟨rfl, rfl⟩ := Phase.marker.inj (hphase.symm.trans hmarker)
    exact after_tree (completeMarker_lands hagree h.sane haimed.below)
  | skipped hskipping => exact .refl _ _
  | @commit session trailer size actual hdigested =>
    rw [hphase] at hdigested
    cases hdigested
  | done => exact .refl _ _
  | stay => exact .refl _ _
  | fail => exact .refl _ _

/-- **Where a step writes**: besides directories that are made, at the target of the entry the receiver
    is at, or at the partial path of its file. -/
theorem Intake.Step.writes (h : s.Placed env root) (hagree : Agrees env s.disk.tree root) (hs : s.Sound env)
    (hm : s.phase.Marked) (hf : s.phase.Filed) (hstep : Intake.Step env s f s') :
    Changes (fun p => ∃ setup, s.phase.setup? = some setup ∧ Intends setup ∧ ∃ path rel, Below env path rel ∧
      p = root ++ names rel ∧ (path = setup.currentPath ∨ setup.IsFile ∧ path = partPathFor setup.currentPath))
      s.disk.tree s'.disk.tree := by
  -- a link is made at its target; everything else is about a partial file or a trailer
  by_cases hlink : ∃ setup target, s.phase = .marker setup (.symlink target false)
  · obtain ⟨setup, target, hphase⟩ := hlink
    obtain ⟨rel, haimed, hchanges⟩ := hstep.lands h hagree hphase
    refine hchanges.mono fun p hp => ⟨setup, by rw [hphase]; rfl, haimed.planned, _, rel, haimed.below, hp, .inl rfl⟩
  refine (hstep.changes hs hm).mono fun p hp => ?_
  have hplaced := h.phase
  rcases hp with hpart | ⟨c, hc, rfl, -⟩
  · -- the place of a partial file
    obtain ⟨part, hpath, hlocate⟩ := Option.bind_eq_some_iff.mp hpart
    obtain ⟨setup, hsetup, hopened, hfile⟩ : ∃ setup, s.phase.setup? = some setup ∧
        Opened env root s.disk.tree setup part ∧ setup.IsFile := by
      generalize s.phase = phase at hplaced hpath hf
      cases phase with
      | await p =>
        cases p with
        | payload setup part' hashed prefixSha256 =>
          obtain rfl := Option.some.inj hpath
          exact ⟨setup, rfl, hplaced, hf⟩
        | _ => cases hpath
      | payload session out content =>
        obtain rfl := Option.some.inj hpath
        exact ⟨session.setup, rfl, hplaced, hf⟩
      | received session =>
        obtain rfl := Option.some.inj hpath
        exact ⟨session.setup, rfl, hplaced, hf⟩
      | _ => cases hpath
    obtain ⟨hint, hpart', rel, hb, hp⟩ := hopened.place_eq hagree hlocate
    exact ⟨setup, hsetup, hint, part, rel, hb, hp, .inr ⟨hfile, hpart'⟩⟩
  · -- the place of a target
    obtain ⟨setup, hsetup, hopened, hlocate⟩ : ∃ setup, s.phase.setup? = some setup ∧
        (∃ part, Opened env root s.disk.tree setup part) ∧
          locate s.disk.tree env.cwd setup.currentPath = some c.place := by
      have htarget : ∃ setup, s.targetPlace? env = some (c.place, setup) := by
        unfold Intake.commit? at hc
        split at hc
        · obtain ⟨⟨place, setup⟩, htarget, rfl⟩ := Option.map_eq_some_iff.mp hc
          exact ⟨setup, htarget⟩
        · cases hc
      obtain ⟨setup, htarget⟩ := htarget
      unfold Intake.targetPlace? at htarget
      generalize s.phase = phase at hplaced htarget hlink
      split at htarget
      · exact absurd ⟨_, _, rfl⟩ hlink
      · obtain ⟨place, hlocate, heq⟩ := Option.map_eq_some_iff.mp htarget
        obtain ⟨rfl, rfl⟩ := Prod.mk.inj heq
        exact ⟨_, rfl, ⟨_, hplaced⟩, hlocate⟩
      · obtain ⟨place, hlocate, heq⟩ := Option.map_eq_some_iff.mp htarget
        obtain ⟨rfl, rfl⟩ := Prod.mk.inj heq
        exact ⟨_, rfl, ⟨_, hplaced⟩, hlocate⟩
      · cases htarget
    obtain ⟨part, -, rel, haimed, hdesc⟩ := hopened
    have hplace := Option.some.inj (hlocate.symm.trans (locate_of_descends hagree haimed.below hdesc))
    exact ⟨setup, hsetup, haimed.planned, _, rel, haimed.below, hplace, .inl rfl⟩

theorem Intake.Step.descends (h : s.Placed env root) (hagree : Agrees env s.disk.tree root) (hs : s.Sound env)
    (hstep : Intake.Step env s f s') {parts : List String} (hd : Descends s.disk.tree root parts) :
    Descends s'.disk.tree root parts := by
  obtain ⟨-, hdoes⟩ := h.step hagree hs hstep
  rcases hdoes with ⟨hacted, -⟩ | ⟨_, _, hends⟩
  · exact hacted.descends hd
  · exact hends.acting.descends hd

/-- A directory that was planned and made stands as long as its entry is open. -/
theorem Intake.Step.grounded (h : s.Placed env root) (hagree : Agrees env s.disk.tree root) (hs : s.Sound env)
    (hg : ∀ setup, s.phase.setup? = some setup → Grounded env root s.disk.tree setup.planned)
    (hstep : Intake.Step env s f s') (hsetup : s'.phase.setup? = some setup) :
    Grounded env root s'.disk.tree setup.planned := by
  cases h.turn hagree hs hstep with
  | manifest hearly hearly' hmade hplan hphase htree =>
    rw [htree]
    exact hg setup (hphase ▸ hsetup)
  | @header message hframe hidle hrecorded hsaw hentry =>
    subst hframe
    cases hstep with
    | @header _ recorded hphase hpath hrecord =>
      have hplan : PlanPlaced env recorded := fun relative planned hfind =>
        h.plan relative planned ((find_of_recorded hrecord relative).symm.trans hfind)
      have hspec := @prepare_spec env root recorded message s.disk hagree h.sane hplan
      obtain ⟨-, ⟨p, ⟨-, hgrounded⟩, heq⟩ | ⟨e, heq⟩⟩ :=
        @after_of { s with plan := recorded, sawFileHeader := true } _ _ Phase.await _ _ hspec
      · rw [heq] at hsetup
        obtain rfl := Option.some.inj hsetup
        exact hgrounded
      · rw [heq] at hsetup
        cases hsetup
    | ack hwait => cases hidle.symm.trans hwait
    | put hpayload => cases hidle.symm.trans hpayload
    | stay =>
      rw [hidle] at hsetup
      cases hsetup
    | fail => cases hsetup
  | other hplan hover hsaw hearly hentry =>
    obtain ⟨setup', hsetup', hplanned, -⟩ := hentry setup hsetup
    intro planned hpl hkind rel hb
    exact hstep.descends h hagree hs (hg setup' hsetup' planned (hplanned ▸ hpl) hkind rel hb)

end Writes

/-! ## What entries have come to

The record of what has been completed is compared with the tree after every step. A step for
another entry writes to other paths, by `PathsApart`, and a step for the same entry there is
none, since a header that was counted is not counted again. -/

/-- An entry was completed, and this was the tree then. -/
structure Completed where
  relative : String
  tree : Tree

/-- The record of the entries that have been completed. -/
def noteCompleted (completed : List Completed) (s : Intake) (_ : Option Frame) (s' : Intake) : List Completed :=
  match s.phase.setup?, s'.phase with
  | some setup, .idle => completed ++ [{ relative := setup.relative, tree := s'.disk.tree }]
  | _, _ => completed

/-- What stood at the entry's target when it was completed stands there still. -/
def Completed.Stands (env : ReceiveEnv) (root : Place) (plan : ReceivePlan) (t : Tree) (c : Completed) : Prop :=
  ∀ planned, findReceivePlanEntry (some plan) c.relative = some planned → planned.action ≠ .skip →
    ∀ rel, Below env planned.targetPath rel → ∀ node, c.tree (root ++ names rel) = some node →
      t (root ++ names rel) = some node

/-- What holds of a receiver in a run from the tree `t`. -/
structure Standing (env : ReceiveEnv) (root : Place) (t : Tree) (s : Intake) (completed : List Completed) : Prop where
  placed : s.Placed env root
  marked : s.phase.Marked
  filed : s.phase.Filed
  grounded : ∀ setup, s.phase.setup? = some setup → Grounded env root s.disk.tree setup.planned
  early : s.phase.over = false → s.sawFileHeader = false → s.disk.tree = t ∧ completed = []
  plan : ∀ plan, s.plan = some plan → PlanStands env t plan
  planned : ∀ setup, s.phase.setup? = some setup → setup.planned = findReceivePlanEntry s.plan setup.relative ∧
    ∀ plan, s.plan = some plan → setup.relative ∈ plan.receivedPaths ∧
      ∃ planned, findReceivePlanEntry (some plan) setup.relative = some planned
  kept : ∀ plan, s.plan = some plan → PartsClear (plan.entries.map (·.2)) → ∀ c ∈ completed,
    c.relative ∈ plan.receivedPaths ∧ (∀ setup, s.phase.setup? = some setup → setup.relative ≠ c.relative) ∧
      c.Stands env root plan s.disk.tree ∧
      Grounded env root s.disk.tree (findReceivePlanEntry (some plan) c.relative)

section Standing

variable {env : ReceiveEnv} {root : Place} {t : Tree} {s s' : Intake} {f : Option Frame}
  {completed : List Completed} {plan : ReceivePlan} {c : Completed}

/-- **A step leaves other entries alone.** -/
theorem Standing.stands_step (h : Standing env root t s completed) (hagree : Agrees env s.disk.tree root)
    (hs : s.Sound env) (hstep : Intake.Step env s f s') (hplan : s.plan = some plan)
    (hclear : PartsClear (plan.entries.map (·.2)))
    (hne : ∀ setup, s.phase.setup? = some setup → setup.relative ≠ c.relative)
    (hstands : c.Stands env root plan s.disk.tree)
    (hground : Grounded env root s.disk.tree (findReceivePlanEntry (some plan) c.relative)) :
    c.Stands env root plan s'.disk.tree := by
  intro planned hfind hwritten rel hb node hnode
  have hthere := hstands planned hfind hwritten rel hb node hnode
  obtain ⟨entries, hmade⟩ := h.plan plan hplan
  -- the entry the receiver is at is another one
  have hother {setup : EntrySetup} (hsetup : s.phase.setup? = some setup) (hint : Intends setup) :
      ∃ other, setup.planned = some other ∧ findReceivePlanEntry (some plan) setup.relative = some other ∧
        setup.currentPath = other.targetPath ∧ other.action ≠ .skip ∧ other ≠ planned := by
    obtain ⟨hpl, hlisted⟩ := h.planned setup hsetup
    obtain ⟨-, other, hfound⟩ := hlisted plan hplan
    rw [hplan, hfound] at hpl
    obtain ⟨htarget, hskip, -⟩ := hint other hpl
    refine ⟨other, hpl, hfound, htarget, hskip, ?_⟩
    rintro rfl
    have hkey := hmade.keys _ (find_mem hfound)
    exact hne setup hsetup (hkey.trans (hmade.keys _ (find_mem hfind)).symm)
  have htarget {setup : EntrySetup} (hsetup : s.phase.setup? = some setup) (hint : Intends setup) {rel' : List String}
      (hb' : Below env setup.currentPath rel') : root ++ names rel ≠ root ++ names rel' := by
    obtain ⟨other, -, hfound, hpath, hskip, -⟩ := hother hsetup hint
    exact fun heq => (h.plan plan hplan).apart hfind hfound (hne setup hsetup).symm hwritten hskip hb (hpath ▸ hb')
      (List.append_cancel_left heq)
  by_cases hkind : planned.manifest.kind = "dir"
  · -- a directory gives way to nothing but a target
    obtain ⟨-, hdoes⟩ := h.placed.step hagree hs hstep
    obtain ⟨target, new, hacts, hends⟩ : ∃ target new, Acts root target s.disk s'.disk new ∧
        ∀ q, target = some q → q ≠ root ++ names rel := by
      rcases hdoes with ⟨⟨new, hacts⟩, -⟩ | ⟨setup, rel', hends⟩
      · exact ⟨none, new, hacts, by simp⟩
      · obtain ⟨new, hacts⟩ := hends.acting
        refine ⟨_, new, hacts, fun q hq heq => ?_⟩
        obtain rfl := Option.some.inj hq
        exact htarget (over_of_target hends.entry).2 hends.aimed.planned hends.aimed.below heq.symm
    have hdir := (hground planned hfind hkind rel hb).look (hagree.dir h.placed.sane)
    rcases hacts.tree (root ++ names rel) with heq | ⟨hnone, -⟩ | ⟨⟨above, stem, hpart⟩, hleaf⟩ | ⟨hq, -⟩
    · exact heq.trans hthere
    · cases hnone.symm.trans hthere
    · rw [look, if_neg (by rw [hpart]; simp)] at hdir
      rcases hleaf with hnone | ⟨content, hfile⟩
      · cases hdir.symm.trans hnone
      · cases hdir.symm.trans hfile
    · exact absurd rfl (hends _ hq)
  · rcases hstep.writes h.placed hagree hs h.marked h.filed (root ++ names rel) with
      heq | ⟨hnone, -⟩ | ⟨setup, hsetup, hint, path, rel', hb', heq, hpath⟩
    · exact heq.trans hthere
    · cases hnone.symm.trans hthere
    · obtain ⟨other, hpl, hfound, hcurrent, hskip, hdistinct⟩ := hother hsetup hint
      rcases hpath with rfl | ⟨hfile, rfl⟩
      · exact absurd heq (htarget hsetup hint hb')
      · refine absurd ?_ ((hclear other (List.mem_map_of_mem (find_mem hfound)) planned
          (List.mem_map_of_mem (find_mem hfind)) hdistinct hskip (hfile other hpl) hwritten).2 hkind)
        rw [SamePath, ← hcurrent, hb'.names, hb.names, List.append_cancel_left heq]

/-- What the record takes. -/
theorem noteCompleted_cases (completed : List Completed) (s : Intake) (f : Option Frame) (s' : Intake) :
    noteCompleted completed s f s' = completed ∨ ∃ setup, s.phase.setup? = some setup ∧ s'.phase = .idle ∧
      noteCompleted completed s f s' = completed ++ [{ relative := setup.relative, tree := s'.disk.tree }] := by
  unfold noteCompleted
  split
  next setup hsetup hidle => exact .inr ⟨setup, hsetup, hidle, rfl⟩
  next => exact .inl rfl

theorem noteCompleted_closed (h : s.phase.setup? = none) : noteCompleted completed s f s' = completed := by
  rcases noteCompleted_cases completed s f s' with heq | ⟨setup, hsetup, -⟩
  · exact heq
  · cases h.symm.trans hsetup

/-- **Every step keeps it.** -/
theorem Standing.step (h : Standing env root t s completed) (hagree : Agrees env s.disk.tree root)
    (hs : s.Sound env) (hlive : s.phase.over = false) (hstep : Intake.Step env s f s') :
    Standing env root t s' (noteCompleted completed s f s') := by
  obtain ⟨hplaced, -⟩ := h.placed.step hagree hs hstep
  have hgrounded : ∀ setup, s'.phase.setup? = some setup → Grounded env root s'.disk.tree setup.planned :=
    fun setup hsetup => hstep.grounded h.placed hagree hs h.grounded hsetup
  have hmarked := hstep.marked hs h.marked
  have hfiled := hstep.filed h.placed hagree hs h.marked h.filed
  have hclosed (hearly : s.sawFileHeader = false) : s.phase.setup? = none := by
    rcases hs.early hearly with hidle | hover
    · rw [hidle]
      rfl
    · cases hlive.symm.trans hover
  have hgroundedAll {plan : ReceivePlan} {c : Completed}
      (hg : Grounded env root s.disk.tree (findReceivePlanEntry (some plan) c.relative)) :
      Grounded env root s'.disk.tree (findReceivePlanEntry (some plan) c.relative) :=
    fun planned hfind hkind rel hb => hstep.descends h.placed hagree hs (hg planned hfind hkind rel hb)
  cases h.placed.turn hagree hs hstep with
  | @manifest entries plan hearly hearly' hmade hplan hphase htree =>
    obtain ⟨hsame, rfl⟩ := h.early hlive hearly
    rw [noteCompleted_closed (hclosed hearly)]
    refine ⟨hplaced, hmarked, hfiled, hgrounded, fun _ _ => ⟨htree.trans hsame, rfl⟩, fun plan' heq => ?_,
      fun setup hsetup => ?_, fun _ _ _ => by simp⟩
    · obtain rfl := Option.some.inj (hplan.symm.trans heq)
      have hreceived : { plan with receivedPaths := [] } = plan := by rw [← hmade.received]
      refine ⟨entries, ?_⟩
      rw [hreceived, ← hsame]
      exact hmade
    · rw [hphase, hclosed hearly] at hsetup
      cases hsetup
  -- A header makes directories on the way to its target, and writes nowhere else.
  | @header message hframe hidle hrecorded hsaw hentry =>
    have hnone : s.phase.setup? = none := by rw [hidle]; rfl
    rw [noteCompleted_closed hnone]
    refine ⟨hplaced, hmarked, hfiled, hgrounded, fun _ hno => ?_, fun plan' hplan' => ?_, fun setup hsetup => ?_,
      fun plan' hplan' hclear c hc => ?_⟩
    · cases hsaw.symm.trans hno
    · rcases recordReceivePlanHeader_ok hrecorded with ⟨-, hnoplan⟩ | ⟨plan, hplan, -, -, hrecord⟩
      · cases hnoplan.symm.trans hplan'
      · obtain rfl := Option.some.inj (hrecord.symm.trans hplan')
        exact (h.plan plan hplan).recorded _
    · obtain ⟨hrelative, hfind⟩ := hentry setup hsetup
      refine ⟨hfind, fun plan' hplan' => ?_⟩
      rcases recordReceivePlanHeader_ok hrecorded with ⟨-, hnoplan⟩ | ⟨plan, hplan, -, ⟨planned, hfound⟩, hrecord⟩
      · cases hnoplan.symm.trans hplan'
      · obtain rfl := Option.some.inj (hrecord.symm.trans hplan')
        rw [hplan] at hfound
        exact ⟨by simp [hrelative], planned, hrelative ▸ hfound⟩
    · rcases recordReceivePlanHeader_ok hrecorded with ⟨-, hnoplan⟩ | ⟨plan, hplan, hnew, -, hrecord⟩
      · cases hnoplan.symm.trans hplan'
      obtain rfl := Option.some.inj (hrecord.symm.trans hplan')
      obtain ⟨hmem, hne, hstands, hground⟩ := h.kept plan hplan hclear c hc
      refine ⟨List.mem_append_left _ hmem, fun setup hsetup heq => ?_, ?_, hgroundedAll hground⟩
      · rw [(hentry setup hsetup).1] at heq
        exact hnew (heq ▸ hmem)
      · have hkept : c.Stands env root plan s'.disk.tree :=
          h.stands_step hagree hs hstep hplan hclear hne hstands hground
        exact hkept
  | other hplan hover hsaw hearly hentry =>
    refine ⟨hplaced, hmarked, hfiled, hgrounded, fun hlive' hno => ?_, fun plan hsome => h.plan plan (hplan ▸ hsome),
      fun setup' hsetup' => ?_, fun plan hsome hclear c hc => ?_⟩
    · rw [hsaw hlive'] at hno
      rw [noteCompleted_closed (hclosed hno), hearly hno]
      exact h.early hlive hno
    · obtain ⟨setup, hsetup, hpl, hrelative⟩ := hentry setup' hsetup'
      rw [hpl, hplan, hrelative]
      exact h.planned setup hsetup
    · rw [hplan] at hsome
      have hold (hc : c ∈ completed) : c.relative ∈ plan.receivedPaths ∧
          (∀ setup, s'.phase.setup? = some setup → setup.relative ≠ c.relative) ∧
          c.Stands env root plan s'.disk.tree ∧
          Grounded env root s'.disk.tree (findReceivePlanEntry (some plan) c.relative) := by
        obtain ⟨hmem, hne, hstands, hground⟩ := h.kept plan hsome hclear c hc
        refine ⟨hmem, fun setup' hsetup' => ?_, ?_, hgroundedAll hground⟩
        · obtain ⟨setup, hsetup, -, hrelative⟩ := hentry setup' hsetup'
          exact hrelative ▸ hne setup hsetup
        · exact h.stands_step hagree hs hstep hsome hclear hne hstands hground
      rcases noteCompleted_cases completed s f s' with heq | ⟨setup, hsetup, hidle, heq⟩
      · exact hold (heq ▸ hc)
      · rw [heq] at hc
        rcases List.mem_append.mp hc with hc | hc
        · exact hold hc
        obtain rfl := List.mem_singleton.mp hc
        obtain ⟨hpl, hlisted⟩ := h.planned setup hsetup
        rw [hsome] at hpl
        refine ⟨(hlisted plan hsome).1, fun setup' hsetup' => ?_, fun planned _ _ rel _ node hnode => hnode, ?_⟩
        · rw [hidle] at hsetup'
          cases hsetup'
        · have hground := h.grounded setup hsetup
          rw [hpl] at hground
          exact @hgroundedAll plan { relative := setup.relative, tree := s'.disk.tree } hground

end Standing

/-! ## Soundness

Both directions and the run in one statement, so that it can be read as what a plan promises and
when. -/

/-- The entries that are completed stay what they have come to, as long as the output directory as it is
    spelled is where its normal form leads: in every run, whatever is sent and in whatever order. -/
def ResultsStand (env : ReceiveEnv) (root : Place) (d : Disk) (plan : ReceivePlan) : Prop :=
  ∀ s completed, ReceivedUnder env (fun s _ => Agrees env s.disk.tree root) noteCompleted [] d s completed →
    (∃ received, s.plan = some { plan with receivedPaths := received }) →
    ∀ c ∈ completed, c.Stands env root plan s.disk.tree

instance (p q : FsPath) : Decidable (SamePath p q) := inferInstanceAs (Decidable (_ = _))

instance (p q : FsPath) : Decidable (OnTheWay p q) := inferInstanceAs (Decidable (_ ∧ ¬ _))

instance (entries : List ReceivePlanEntry) : Decidable (PartsClear entries) :=
  inferInstanceAs (Decidable (∀ a ∈ entries, ∀ b ∈ entries, _ → _))

theorem standing_start (env : ReceiveEnv) (root : Place) (d : Disk) (hsane : Sane d.tree) :
    Standing env root d.tree { disk := d } [] := by
  refine ⟨⟨hsane, fun _ _ hfind => ?_, trivial⟩, trivial, trivial, nofun, fun _ _ => ⟨rfl, rfl⟩, nofun, nofun, nofun⟩
  cases hfind

/-- **What a plan is good for.** Where the output directory exists, the paths that are written for an
    accepted manifest are apart, and what an entry has come to stays, if and only if no partial file is to
    stand where another entry goes. -/
theorem plan_sound (env : ReceiveEnv) (root : Place) (d : Disk) (manifest : TransferManifest) (plan : ReceivePlan)
    (summary : ReceivePlanSummary) (hsane : Sane d.tree)
    (hhere : look d.tree (origin env.cwd env.outputDir) = some .dir)
    (hroot : resolve d.tree env.cwd env.outputDir = some root)
    (h : env.preflight d.tree manifest = .ok (plan, summary)) :
    PathsApart (plan.entries.map (·.2)) ∧ ResultsStand env root d plan ↔
      PartsClear (env.destinations d.tree [] manifest.entries) := by
  refine ⟨fun hsound => (pathsApart_iff hsane hhere hroot h).mp hsound.1, fun hclear => ?_⟩
  refine ⟨(pathsApart_iff hsane hhere hroot h).mpr hclear, ?_⟩
  rw [← preflight_destinations h] at hclear
  intro s completed hr hplan c hc
  obtain ⟨received, hplan⟩ := hplan
  have hstanding : Standing env root d.tree s completed :=
    hr.invariant (I := fun s completed => Standing env root d.tree s completed) (standing_start env root d hsane)
      fun hsound hlive h hagree hstep => h.step hagree hsound hlive hstep
  exact (hstanding.kept _ hplan hclear c hc).2.2.1

theorem sampleDisk_sane : Sane sampleDisk.tree := by
  refine ⟨fun {p part} hp => ?_, fun {p target} hp => ?_⟩
  · simp only [sampleDisk] at hp
    split_ifs at hp with hout
    · obtain rfl : p = [] := by simpa using congrArg List.dropLast hout
      rfl
    · exact absurd rfl hp
  · simp only [sampleDisk] at hp
    split_ifs at hp
    cases hp

/-- Files of three bytes. -/
def filesManifest (paths : List String) : TransferManifest where
  totalSize := 3 * paths.length
  entries := paths.map fun path => { path := path, size := 3, kind := "file" }

/-- What is said of them on the wire. -/
def filesText (paths : List String) : ManifestText where
  entries := paths.map fun path => { path := path, size := 3, kind := "file" }
  count := paths.length
  totalSize := 3 * paths.length

/-- Where they go. -/
def filesPlan (paths received : List String) : ReceivePlan where
  entries := paths.map fun path => (path,
    { manifest := { path := path, size := 3, kind := "file" }, targetPath := .ofString ("/out/" ++ path) })
  receivedPaths := received

theorem files_accepted {paths : List String} {plan : ReceivePlan}
    (h : ((sampleEnv.preflight sampleDisk.tree (filesManifest paths)).toOption.map (·.1)) = some plan) :
    ∃ summary, sampleEnv.preflight sampleDisk.tree (filesManifest paths) = .ok (plan, summary) := by
  cases hr : sampleEnv.preflight sampleDisk.tree (filesManifest paths) with
  | error e =>
    rw [hr] at h
    cases h
  | ok r =>
    rw [hr] at h
    obtain rfl := Option.some.inj h
    exact ⟨r.2, rfl⟩

/-- Two files side by side. -/
theorem plan_sound_sample : ∃ plan summary,
    sampleEnv.preflight sampleDisk.tree (filesManifest ["a", "b.kikopart"]) = .ok (plan, summary) ∧
      PathsApart (plan.entries.map (·.2)) ∧ ResultsStand sampleEnv ["out"] sampleDisk plan := by
  obtain ⟨summary, h⟩ := @files_accepted ["a", "b.kikopart"] (filesPlan ["a", "b.kikopart"] []) (by decide +kernel)
  refine ⟨_, summary, h, ?_⟩
  exact (plan_sound sampleEnv ["out"] sampleDisk _ _ summary sampleDisk_sane (by decide) (by decide) h).mpr
    (by decide +kernel)

/-- A file and another under the name of its partial file: the manifest is accepted, and the first to
    come is lost when the second is received. -/
theorem part_collides : ∃ plan summary,
    sampleEnv.preflight sampleDisk.tree (filesManifest ["a.kikopart", "a"]) = .ok (plan, summary) ∧
      ¬ PathsApart (plan.entries.map (·.2)) ∧ ¬ ResultsStand sampleEnv ["out"] sampleDisk plan := by
  obtain ⟨summary, h⟩ := @files_accepted ["a.kikopart", "a"] (filesPlan ["a.kikopart", "a"] []) (by decide +kernel)
  refine ⟨_, summary, h, fun hapart => ?_, fun hstand => ?_⟩
  · have hsame := hapart.distinct (filesPlan ["a.kikopart", "a"] []).entries[1].2 (by decide +kernel)
      (filesPlan ["a.kikopart", "a"] []).entries[0].2 (by decide +kernel) (by decide +kernel)
      (partPathFor (.ofString "/out/a")) (by decide +kernel) (.ofString "/out/a.kikopart") (by decide +kernel)
    exact hsame (by decide +kernel)
  · obtain ⟨⟨r, completed⟩, hr, hlast⟩ := Lts.ReachUnder.exists_of_run
      (track (StreamRecv.next sampleEnv) (fun _ input => StreamInput.seen input)
        (@StreamRecv.intake storedStream) noteCompleted)
      (fun s _ => Agrees sampleEnv s.1.intake.disk.tree ["out"]) ({ loop := { disk := sampleDisk } }, [])
      (([Frame.manifest (filesText ["a.kikopart", "a"])] ++ hiWhole "a.kikopart" ++
        [hiHeader "a", .resumeAck (resumeAckMessage 3), hiEnd]).map .frame)
      (fun s => s.1.intake.plan = some (filesPlan ["a.kikopart", "a"] ["a.kikopart", "a"]) ∧
        s.2.any (fun c => c.relative = "a.kikopart" ∧ c.tree ["out", "a.kikopart"] = some (.file [104, 105, 33])) ∧
        s.1.intake.disk.tree ["out", "a.kikopart"] = none)
      (by decide +kernel) (by decide +kernel)
    simp only [decide_eq_true_eq] at hlast
    obtain ⟨hplan, hany, hgone⟩ := hlast
    obtain ⟨c, hc, hentry⟩ := List.any_eq_true.mp hany
    simp only [decide_eq_true_eq] at hentry
    have hstands := hstand _ completed (.stream hr) ⟨["a.kikopart", "a"], hplan⟩ c hc
      (filesPlan ["a.kikopart", "a"] []).entries[0].2 (by rw [hentry.1]; decide +kernel) (by decide) ["a.kikopart"]
      ⟨by decide +kernel, by decide +kernel, by decide +kernel, by decide, by decide⟩ (.file [104, 105, 33]) hentry.2
    exact absurd (hgone.symm.trans hstands) (by simp)

end Kiko.Transfer
