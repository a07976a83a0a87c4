import Kiko.Transfer.Placement
import Kiko.Transfer.Preflight

/-!
# What a step of the receiver leaves behind

Where the output directory is at `root` (`Agrees`), all that a receiver does is below `root`:
each operation on the disk keeps `Acted`, and where it commits a file or a link it changes the
target the entry was sent to (`Acts`). `Phase.Placed` is what holds between the operations, and
`Intake.Placed.step` is the account of one step: what is placed stays placed, and the disk has
changed by directories, by partial files, and at the target of a trailer.

Each operation has one lemma, of the form `Ensures P Q op d`: whatever it returns or throws,
the tree has changed as `P` says, and a normal return has `Q` as well. Errors are not a case
apart, since an error of the code leaves the disk where it was when it was thrown; that is why
`P` is about every outcome. The operations are composed in the order of the code, so a change
of one of them touches its own lemma and the one of its caller.

The output directory is described by where it resolves to (`Agrees`) and not by its path: the
checks of the code are about paths, and it is for the proof to say when a path that passed a
check does lead below the root.
-/

set_option autoImplicit false

namespace Kiko.Transfer

open Lexical FileTree FsPath Effect

/-! ## Directories are made

`create_directories` is the one operation that makes what it needs on its way. Below a root
with no link on the way it goes straight down (`createDirectories_below`), and all that it
leaves are directories. -/

/-- The receiver has acted below `root` only. -/
def Inside (root : Place) (d d' : Disk) : Prop :=
  ∃ new, d'.touched = d.touched ++ new ∧ ∀ p ∈ new, root <+: p

theorem Inside.refl (root : Place) (d : Disk) : Inside root d d := ⟨[], by simp, by simp⟩

theorem Inside.trans {root : Place} {d d' d'' : Disk} (h : Inside root d d') (h' : Inside root d' d'') :
    Inside root d d'' := by
  obtain ⟨new, hnew, hroot⟩ := h
  obtain ⟨new', hnew', hroot'⟩ := h'
  refine ⟨new ++ new', by rw [hnew', hnew, List.append_assoc], fun p hp => ?_⟩
  rcases List.mem_append.mp hp with hp | hp
  · exact hroot p hp
  · exact hroot' p hp

/-- The receiver has made directories below `root`, and changed nothing else. -/
structure Built (root : Place) (d d' : Disk) : Prop where
  tree : Builds root d.tree d'.tree
  sane : Sane d'.tree
  inside : Inside root d d'

theorem Built.refl {root : Place} {d : Disk} (h : Sane d.tree) : Built root d d :=
  ⟨.refl root d.tree, h, .refl root d⟩

theorem Built.trans {root : Place} {d d' d'' : Disk} (h : Built root d d') (h' : Built root d' d'') :
    Built root d d'' := ⟨h.tree.trans h'.tree, h'.sane, h.inside.trans h'.inside⟩

/-- What it has acted on are directories now. -/
def Makes (d d' : Disk) : Prop := ∃ new, d'.touched = d.touched ++ new ∧ ∀ p ∈ new, d'.tree p = some .dir

section Make

variable {env : ReceiveEnv} {root : Place} {p : FsPath} {rel : List String} {d : Disk}

/-- **`create_directories` goes straight down from the output directory.** -/
theorem createDirectories_below (h : Agrees env d.tree root) (hsane : Sane d.tree)
    (habs : p.isAbsolute = env.outputDir.isAbsolute) (hne : p.isEmpty = false) {parts : List String}
    (hparts : names p.parts = names env.outputDir.parts ++ parts) (hs : Straight d.tree root parts)
    (hn : ∀ part ∈ parts, FsPath.isName part) :
    ∃ d', env.createDirectories p d = .ok () d' ∧ Built root d d' ∧ Descends d'.tree root parts ∧ Makes d d' := by
  have hspelled := h.spelled
  rw [resolve] at hspelled
  split_ifs at hspelled
  have horigin : origin env.cwd p = origin env.cwd env.outputDir := by simp only [origin, habs]
  obtain ⟨m, hm, -, hbuilds, hsane', hdesc, new, hmade, hnew⟩ := hsane.mkdirs_straight (h.dir hsane) hs hn []
  have hmk : mkdirs d.tree [] (origin env.cwd p) p.parts = some m := by
    rw [← mkdirs_names, hparts, mkdirs_append, mkdirs_names, horigin,
      hsane.mkdirs_of_walk h.here (Nat.le_refl _) hspelled, Option.bind_some, hm]
  refine ⟨{ d with tree := m.tree, touched := d.touched ++ m.made }, ?_,
    ⟨hbuilds, hsane', new, by simp [hmade], fun p hp => (hnew p hp).1⟩, hdesc, new, by simp [hmade],
    fun p hp => (hnew p hp).2⟩
  rw [ReceiveEnv.createDirectories, bind_tree, if_neg (by simp [hne]), hmk]
  rfl

/-- The directories above a target are made. -/
theorem createParent_below (h : Agrees env d.tree root) (hsane : Sane d.tree) (hb : Below env p rel)
    (hs : Straight d.tree root (names rel.dropLast)) :
    ∃ d', env.createParent p d = .ok () d' ∧ Built root d d' ∧ Descends d'.tree root (names rel.dropLast) ∧
      Makes d d' := by
  have hparent : p.parent.parts = p.parts.dropLast := rfl
  by_cases hempty : p.parent.isEmpty = true
  · -- there is nothing above it but the directory the receiver is in
    have hnil : names rel.dropLast = [] := by
      have hnames := hb.names_dropLast
      simp only [FsPath.isEmpty, hparent, Bool.and_eq_true, List.isEmpty_iff] at hempty
      rw [hempty.2, names_nil, eq_comm, List.append_eq_nil_iff] at hnames
      exact hnames.2
    refine ⟨d, by rw [ReceiveEnv.createParent, if_pos hempty]; rfl, .refl hsane, ?_, [], by simp, by simp⟩
    rw [hnil]
    exact .nil
  · rw [ReceiveEnv.createParent, if_neg hempty]
    have habs : p.parent.isAbsolute = env.outputDir.isAbsolute := hb.absolute
    have hnames : names p.parent.parts = _ := hb.names_dropLast
    exact createDirectories_below h hsane habs (by simpa using hempty) hnames hs hb.isName

end Make

/-! ## What each operation does

Up to the question: a header leads to a session that is `Aimed`, that is to a target below the
output directory whose directories are there, or it is refused. Where there is no plan the
target is what the header says under the conflict policy, and then all depends on the name not
being one for a partial file, which is what `Named` keeps. -/

section Rules

variable {α β : Type} {R : Disk → Prop} {P : β → Disk → Prop} {d : Disk} {result : Except KikoError α}
  {f : α → ReceiveM β}

theorem ensures_check (hR : R d) :
    Ensures R (fun a d' => result = .ok a ∧ d' = d) (ReceiveM.check result) d := by
  cases result with
  | ok a => exact ensures_pure hR ⟨rfl, rfl⟩
  | error e => exact ensures_throw hR

/-- A check that comes first. -/
theorem ensures_check_bind (hR : R d) (hf : ∀ a, result = .ok a → Ensures R P (f a) d) :
    Ensures R P (ReceiveM.check result >>= f) d := by
  refine (ensures_check hR).bind ?_
  rintro a d' - ⟨ha, rfl⟩
  exact hf a ha

theorem ensures_tree_bind {f : Tree → ReceiveM β} (h : Ensures R P (f d.tree) d) :
    Ensures R P (ReceiveM.tree >>= f) d := h

theorem ensures_status_bind {text : String} {f : Unit → ReceiveM β}
    (h : Ensures R P (f ()) { d with log := d.log ++ [.status text] }) :
    Ensures R P (ReceiveM.status text >>= f) d := h

/-- An operation whose result is known. -/
theorem ensures_ok_bind {m : ReceiveM α} {a : α} {d' : Disk} (hm : m d = .ok a d')
    (h : Ensures R P (f a) d') : Ensures R P (m >>= f) d := by
  rw [Ensures, bind_of_ok hm]
  exact h

end Rules

/-- What the plan says of an entry that is to be written. -/
def Intends (setup : EntrySetup) : Prop :=
  ∀ planned, setup.planned = some planned →
    setup.currentPath = planned.targetPath ∧ planned.action ≠ .skip ∧ planned.manifest.kind ≠ "dir"

/-- The name is one for a partial file. -/
def IsPartName (name : String) : Prop := ∃ stem, name = stem ++ ".kikopart"

/-- Without a plan an entry goes by a name for a partial file only where its header says so. -/
def Named (setup : EntrySetup) : Prop :=
  setup.planned = none → IsPartName setup.currentPath.filename → IsPartName (ofString setup.relative).filename

/-- An entry that is to be written goes below the output directory; without a plan and unless it
    may overwrite, to where nothing stands, or a directory that will not give way. -/
structure Aimed (env : ReceiveEnv) (root : Place) (t : Tree) (setup : EntrySetup) (rel : List String) : Prop where
  below : Below env setup.currentPath rel
  planned : Intends setup
  named : Named setup
  vacant : setup.planned = none → env.policy ≠ .overwrite →
    look t (root ++ names rel) = none ∨ look t (root ++ names rel) = some .dir

/-- A file that is about to be written: its partial file stands beside its target. -/
def Opened (env : ReceiveEnv) (root : Place) (t : Tree) (setup : EntrySetup) (part : FsPath) : Prop :=
  part = partPathFor setup.currentPath ∧
    ∃ rel, Aimed env root t setup rel ∧ Descends t root (names rel.dropLast)

/-- What a question says of the entry it is about. -/
def Pending.Placed (env : ReceiveEnv) (root : Place) (t : Tree) : Pending → Prop
  | .marker setup (.symlink _ false) => ∃ rel, Aimed env root t setup rel
  | .marker _ _ | .conflictSkip _ => True
  | .duplicate setup =>
    (∃ rel, Below env setup.currentPath rel ∧ Straight t root (names rel.dropLast)) ∧ Intends setup ∧
      Named setup ∧ (setup.planned = none → env.policy ≠ .skip) ∧
      ∃ content, env.symlinkStatus t setup.currentPath = some (.file content)
  | .payload setup part _ _ => Opened env root t setup part

/-- Where a directory is planned, directories stand all the way. -/
def Grounded (env : ReceiveEnv) (root : Place) (t : Tree) (entry : Option ReceivePlanEntry) : Prop :=
  ∀ planned, entry = some planned → planned.manifest.kind = "dir" →
    ∀ rel, Below env planned.targetPath rel → Descends t root (names rel)

/-- The targets of a plan are below the output directory, and those of directories are spelled
    as directories. -/
def PlanPlaced (env : ReceiveEnv) (plan : Option ReceivePlan) : Prop :=
  ∀ relative planned, findReceivePlanEntry plan relative = some planned →
    ∃ rel, Below env planned.targetPath rel ∧
      (planned.manifest.kind = "dir" → names rel.dropLast = names rel)

section Prepare

variable {env : ReceiveEnv} {root : Place} {plan : Option ReceivePlan} {header : Message}
  {setup : EntrySetup} {rel : List String} {d : Disk}

theorem Aimed.built {d' : Disk} (h : Aimed env root d.tree setup rel) (hb : Built root d d') :
    Aimed env root d'.tree setup rel := by
  refine ⟨h.below, h.planned, h.named, fun hp hpol => ?_⟩
  have hv := h.vacant hp hpol
  unfold look at hv ⊢
  split_ifs at hv ⊢ with hnil
  · exact hv
  · rcases hb.tree (root ++ names rel) with heq | ⟨-, hdir, -⟩
    · rwa [heq]
    · exact .inr hdir

/-- A name with a number in brackets is a name. -/
theorem isName_numbered (stem ext : String) (i : Nat) :
    FsPath.isName (stem ++ " (" ++ toString i ++ ")" ++ ext) = true := by
  have hmem : '(' ∈ (stem ++ " (" ++ toString i ++ ")" ++ ext).toList := by simp
  have hne (other : String) (h : '(' ∉ other.toList) : stem ++ " (" ++ toString i ++ ")" ++ ext ≠ other := by
    rintro rfl
    exact h hmem
  simp only [FsPath.isName, Bool.and_eq_true, decide_eq_true_eq]
  exact ⟨⟨hne "" (by decide), hne "." (by decide)⟩, hne ".." (by decide)⟩

theorem ofList_append_part {stem ext : List Char} {name : String} (hname : name.toList = stem ++ '.' :: ext)
    (hext : ext = "kikopart".toList) : IsPartName name := by
  refine ⟨String.ofList stem, String.toList_inj.mp ?_⟩
  rw [hname, hext]
  simp

/-- A number in brackets makes no name one for a partial file. -/
theorem isPartName_numbered {p : FsPath} {stem : String} {i : Nat}
    (h : IsPartName (stem ++ " (" ++ toString i ++ ")" ++ p.extension)) : IsPartName p.filename := by
  obtain ⟨other, h⟩ := h
  replace h := congrArg String.toList h
  rcases splitExtension_snd p.filename with hnone | ⟨before, ext, hname, hdot, hext⟩
  · have hlast := congrArg List.getLast? h
    rw [FsPath.extension, hnone] at hlast
    simp [List.getLast?_cons] at hlast
  · rw [FsPath.extension, String.toList_append, String.toList_append, hext] at h
    have hpart : ".kikopart".toList = '.' :: "kikopart".toList := by decide
    rw [@String.toList_append other, hpart] at h
    exact ofList_append_part hname (eq_of_last_split hdot (by decide) h)

/-- A free name beside a target. -/
theorem uniqueConflictPath_ok {t : Tree} {p renamed : FsPath} {reserved : FsPath → Bool} (hb : Below env p rel)
    (h : env.uniqueConflictPath t p reserved = .ok renamed) :
    (∃ name, FsPath.isName name = true ∧ Below env renamed (rel.dropLast ++ [name])) ∧
      env.symlinkStatus t renamed = none ∧ reserved renamed = false ∧
      (IsPartName renamed.filename → IsPartName p.filename) := by
  simp only [ReceiveEnv.uniqueConflictPath] at h
  split at h
  next i hfind =>
    obtain rfl := Except.ok.inj h
    have hfree := List.find?_some hfind
    simp only [Bool.and_eq_true, Bool.not_eq_true', ReceiveEnv.pathExistsNoFollow, Option.isSome_eq_false_iff,
      Option.isNone_iff_eq_none] at hfree
    have hname := isName_numbered
      (if p.stem ≠ "" then p.stem else if p.filename ≠ "" then p.filename else "received") p.extension i
    refine ⟨⟨_, hname, hb.sibling (isSkip_of_isName hname).2⟩, hfree.1.2, hfree.1.1, fun hpart => ?_⟩
    have hfile : ∀ (q : FsPath) (name : String), (q.join { parts := [name] }).filename = name := fun q name => by
      simp [FsPath.filename, FsPath.join]
    rw [hfile] at hpart
    exact isPartName_numbered hpart
  next => cases h

theorem resolveConflictPath_spec (hb : Below env setup.currentPath rel) (hsane : Sane d.tree)
    (hskip : setup.planned = none → env.policy = .skip → env.symlinkStatus d.tree setup.currentPath = none) :
    Ensures (Built root d)
      (fun current d' => d'.tree = d.tree ∧ (∃ rel', Below env current rel') ∧
        (∀ planned, setup.planned = some planned → current = setup.currentPath) ∧
        (IsPartName current.filename → IsPartName setup.currentPath.filename) ∧
        (setup.planned = none → env.policy ≠ .overwrite → env.symlinkStatus d.tree current = none))
      (env.resolveConflictPath setup) d := by
  have hrefl : Built root d d := .refl hsane
  have hlog (text : String) : Built root d { d with log := d.log ++ [.status text] } :=
    ⟨.refl root d.tree, hsane, [], by simp, by simp⟩
  unfold ReceiveEnv.resolveConflictPath
  cases hp : setup.planned with
  | some planned =>
    simp only
    split_ifs
    · exact ⟨hlog _, rfl, ⟨rel, hb⟩, fun _ _ => rfl, id, by simp⟩
    · exact ⟨hrefl, rfl, ⟨rel, hb⟩, fun _ _ => rfl, id, by simp⟩
  | none =>
    refine ensures_tree_bind ?_
    split_ifs with hrename
    · refine ensures_tree_bind (ensures_check_bind hrefl fun renamed hrenamed => ?_)
      obtain ⟨⟨name, -, hbelow⟩, hfree, -, hnamed⟩ := uniqueConflictPath_ok hb hrenamed
      exact ⟨hlog _, rfl, ⟨_, hbelow⟩, by simp, hnamed, fun _ _ => hfree⟩
    · refine ensures_pure hrefl ⟨rfl, ⟨rel, hb⟩, fun _ _ => rfl, id, fun _ hpol => ?_⟩
      cases hpolicy : env.policy with
      | overwrite => exact absurd hpolicy hpol
      | skip => exact hskip hp hpolicy
      | rename =>
        rw [hpolicy] at hrename
        simpa [ReceiveEnv.pathExistsNoFollow] using hrename

/-- What is written is asked about once the way to it is made. -/
theorem preparePayload_spec (hagree : Agrees env d.tree root) (hsane : Sane d.tree)
    (hb : Below env setup.currentPath rel) (hint : Intends setup) (hname : Named setup)
    (hskip : setup.planned = none → env.policy = .skip → env.symlinkStatus d.tree setup.currentPath = none) :
    Ensures (Built root d) (fun p d' => p.Placed env root d'.tree ∧ p.setup.planned = setup.planned ∧
      p.setup.relative = setup.relative) (env.preparePayload setup) d := by
  refine (resolveConflictPath_spec hb hsane hskip).bind ?_
  rintro current d₁ hbuilt ⟨htree, ⟨rel', hb'⟩, hplanned, hnamed, hfree⟩
  refine ensures_tree_bind (ensures_check_bind hbuilt fun _ hvalid => ?_)
  rw [← htree] at hagree hfree
  have hstraight := straight_of_valid hagree hb' hvalid
  obtain ⟨d₂, hmake, hbuilt', hdesc, -⟩ := createParent_below hagree hbuilt.sane hb' hstraight
  refine ensures_ok_bind hmake (ensures_tree_bind (ensures_check_bind (hbuilt.trans hbuilt') fun _ _ => ?_))
  refine ensures_tree_bind (ensures_check_bind (hbuilt.trans hbuilt') fun have_ _ => ?_)
  have haimed : Aimed env root d₁.tree { setup with currentPath := current } rel' := by
    refine ⟨hb', fun planned hp => ?_, fun hp hpart => hname hp (hnamed hpart), fun hp hpol => ?_⟩
    · obtain ⟨htarget, hrest⟩ := hint planned hp
      exact ⟨(hplanned planned hp).trans htarget, hrest⟩
    · exact .inl (look_eq_none hagree hbuilt.sane hb' hstraight (hfree hp hpol))
  refine ensures_tree_bind ?_
  split <;> exact ensures_pure (hbuilt.trans hbuilt') ⟨⟨rfl, rel', haimed.built hbuilt', hdesc⟩, rfl, rfl⟩

theorem skipsExisting_none {t : Tree} (h : ¬ env.skipsExisting t setup = true) (hp : setup.planned = none)
    (hpol : env.policy = .skip) : env.symlinkStatus t setup.currentPath = none := by
  simpa [ReceiveEnv.skipsExisting, hp, hpol, ReceiveEnv.pathExistsNoFollow] using h

theorem prepareSymlink_spec (hagree : Agrees env d.tree root) (hsane : Sane d.tree)
    (hb : Below env setup.currentPath rel)
    (hint : ¬ env.skipsExisting d.tree setup = true → Intends setup) (hname : Named setup) :
    Ensures (Built root d) (fun p d' => p.Placed env root d'.tree ∧ p.setup.planned = setup.planned ∧
      p.setup.relative = setup.relative) (env.prepareSymlink setup) d := by
  have hrefl : Built root d d := .refl hsane
  refine ensures_check_bind hrefl fun _ _ => ensures_tree_bind ?_
  split_ifs with hskips
  · have hlog : Built root d { d with log := d.log ++ [.status ("skipped existing " ++ setup.relative)] } :=
      ⟨.refl root d.tree, hsane, [], by simp, by simp⟩
    refine ensures_status_bind (ensures_tree_bind (ensures_check_bind hlog fun _ _ => ?_))
    exact ensures_pure hlog ⟨trivial, rfl, rfl⟩
  · refine (resolveConflictPath_spec hb hsane (skipsExisting_none hskips)).bind ?_
    rintro current d₁ hbuilt ⟨htree, ⟨rel', hb'⟩, hplanned, hnamed, hfree⟩
    refine ensures_tree_bind (ensures_check_bind hbuilt fun _ hvalid => ?_)
    rw [← htree] at hagree hfree
    refine ensures_pure hbuilt ⟨⟨rel', hb', fun planned hp => ?_, fun hp hpart => hname hp (hnamed hpart),
      fun hp hpol => ?_⟩, rfl, rfl⟩
    · obtain ⟨htarget, hrest⟩ := hint hskips planned hp
      exact ⟨(hplanned planned hp).trans htarget, hrest⟩
    · exact .inl (look_eq_none hagree hbuilt.sane hb' (straight_of_valid hagree hb' hvalid) (hfree hp hpol))

/-- The receiver has acted below `root`, and the tree is as it was. -/
def Noted (root : Place) (d d' : Disk) : Prop := d'.tree = d.tree ∧ Inside root d d'

variable (header) in
/-- Metadata is given to what stands at a target that is no link. -/
theorem applyFileMetadata_spec {current : FsPath}
    (hplace : ∀ place, locate d.tree env.cwd current = some place →
      root <+: place ∧ ∀ target, look d.tree place ≠ some (.symlink target)) :
    Ensures (Noted root d) (fun _ => Noted root d) (env.applyFileMetadata current header) d := by
  have hplaces : ∀ p ∈ ((locate d.tree env.cwd current).bind (real d.tree maxLinks)).toList, root <+: p := by
    intro p hp
    rw [Option.mem_toList, Option.bind_eq_some_iff] at hp
    obtain ⟨place, hlocate, hreal⟩ := hp
    obtain ⟨hroot, hlink⟩ := hplace place hlocate
    cases hlook : look d.tree place with
    | none =>
      rw [real.eq_def] at hreal
      simp [hlook] at hreal
    | some node =>
      rw [real_of_ne_link hlook fun target heq => hlink target (heq ▸ hlook)] at hreal
      exact Option.some.inj hreal ▸ hroot
  have htouch (c : Prop) [Decidable c] (d' : Disk) (h : Noted root d d') : Noted root d
      { d' with touched := d'.touched ++
        if c then ((locate d.tree env.cwd current).bind (real d.tree maxLinks)).toList else [] } := by
    refine ⟨h.1, h.2.trans ⟨_, rfl, ?_⟩⟩
    split_ifs
    · exact hplaces
    · simp
  have hrefl : Noted root d d := ⟨rfl, .refl root d⟩
  refine ensures_tree_bind (ensures_check_bind hrefl fun mode _ => ?_)
  have hmode := htouch (mode % 2 ^ 32 &&& 0o111 ≠ 0) d hrefl
  refine ensures_ok_bind rfl (ensures_check_bind hmode fun mtimeMs _ => ?_)
  have hmtime := htouch (mtimeMs ≠ 0) _ hmode
  exact ⟨hmtime, hmtime⟩

theorem prepareDirectory_spec (hagree : Agrees env d.tree root) (hsane : Sane d.tree)
    (hb : Below env setup.currentPath rel) (hdir : names rel.dropLast = names rel) :
    Ensures (Built root d) (fun p d' => (p.Placed env root d'.tree ∧ p.setup.planned = setup.planned ∧
      p.setup.relative = setup.relative) ∧ Descends d'.tree root (names rel)) (env.prepareDirectory setup) d := by
  refine ensures_tree_bind (ensures_check_bind (.refl hsane) fun _ hvalid => ?_)
  have hstraight := straight_of_valid hagree hb hvalid
  rw [hdir] at hstraight
  have hempty : setup.currentPath.isEmpty = false := by
    have hlast := hb.last
    cases hparts : setup.currentPath.parts with
    | nil =>
      rw [hparts, List.getLast?_nil, eq_comm, List.getLast?_eq_none_iff] at hlast
      exact absurd hlast hb.ne
    | cons part rest => simp [FsPath.isEmpty, hparts]
  obtain ⟨d₁, hmake, hbuilt, hdesc, -⟩ := createDirectories_below hagree hsane hb.absolute hempty hb.names
    hstraight (names_isName hb.no_up)
  have hagree₁ := hagree.keeps hbuilt.tree.keeps
  refine ensures_ok_bind hmake ?_
  have hplace : ∀ place, locate d₁.tree env.cwd setup.currentPath = some place →
      root <+: place ∧ ∀ target, look d₁.tree place ≠ some (.symlink target) := by
    intro place hlocate
    rw [locate_of_descends hagree₁ hb (hdir ▸ hdesc)] at hlocate
    obtain rfl := Option.some.inj hlocate
    have hlook := hdesc.look (hagree₁.dir hbuilt.sane)
    exact ⟨List.prefix_append .., fun target heq => by rw [hlook] at heq; cases heq⟩
  have hnoted (d₂ : Disk) (h : Noted root d₁ d₂) : Built root d d₂ := by
    refine hbuilt.trans ⟨?_, ?_, h.2⟩
    · rw [h.1]
      exact .refl root _
    · rw [h.1]
      exact hbuilt.sane
  refine ((applyFileMetadata_spec _ hplace).mono hnoted fun _ _ _ h => h).bind fun _ d₂ hbuilt₂ hnoted₂ => ?_
  exact ensures_pure hbuilt₂ ⟨⟨trivial, rfl, rfl⟩, by rwa [hnoted₂.1]⟩

/-- A path that ends in a slash names a directory. -/
theorem names_dropLast_of_slash {relative : String} (h : endsInSlash relative = true) {parts : List String}
    (hparts : parts = if (ofString relative).parts = [] then [""] else (ofString relative).parts) :
    names parts.dropLast = names parts := by
  have hlast : parts.getLast? = some "" := by
    rw [hparts]
    split_ifs with hnil
    · rfl
    · have hslash : relative.toList.getLast? = some '/' := by simpa [endsInSlash] using h
      simp only [FsPath.ofString, hslash, and_true] at hnil ⊢
      split_ifs at hnil ⊢ with hempty
      · simp
      · exact absurd (not_not.mp hempty) hnil
  conv_rhs => rw [← List.dropLast_append_getLast? "" hlast]
  rw [names_concat, if_pos (by decide), List.append_nil]

/-- Where a header is sent: as its plan says, or under its own path. -/
theorem headerTarget_ok {relative : String} {size : Nat} {current : FsPath}
    (h : env.headerTarget plan header relative size = .ok current) :
    (∃ planned, findReceivePlanEntry plan relative = some planned ∧ current = planned.targetPath ∧
        planned.manifest.kind = headerKind header relative size) ∨
      findReceivePlanEntry plan relative = none ∧ safeJoin env.outputDir relative = .ok current := by
  unfold ReceiveEnv.headerTarget at h
  split at h
  · cases h
  next _ _ planned hfind =>
    obtain ⟨_, hheader, h⟩ := exists_of_bind_ok h
    refine .inl ⟨planned, hfind, (Except.ok.inj h).symm, ?_⟩
    unfold validateReceivePlanHeader at hheader
    by_contra hne
    simp [hne] at hheader
  next hfind => exact .inr ⟨hfind, h⟩

/-- What the constructor's first part has seen to. -/
theorem entrySetup_spec {t : Tree} (hagree : Agrees env t root) (hplan : PlanPlaced env plan)
    (h : env.entrySetup t plan header = .ok setup) :
    setup.planned = findReceivePlanEntry plan setup.relative ∧
      (∀ planned, setup.planned = some planned → setup.currentPath = planned.targetPath ∧
        planned.manifest.kind = headerKind header setup.relative setup.declaredSize) ∧ Named setup ∧
      ∃ rel, Below env setup.currentPath rel ∧ Straight t root (names rel.dropLast) ∧
        (headerKind header setup.relative setup.declaredSize = "dir" → names rel.dropLast = names rel) := by
  unfold ReceiveEnv.entrySetup at h
  dsimp only at h
  split_ifs at h with hpath
  obtain ⟨size, -, h⟩ := exists_of_bind_ok h
  obtain ⟨current, hcurrent, h⟩ := exists_of_bind_ok h
  obtain ⟨_, hvalid, h⟩ := exists_of_bind_ok h
  obtain rfl := Except.ok.inj h
  refine ⟨rfl, ?_⟩
  rcases headerTarget_ok hcurrent with ⟨planned, hfind, rfl, hkind⟩ | ⟨hfind, hjoin⟩
  · obtain ⟨rel, hb, hdir⟩ := hplan _ planned hfind
    refine ⟨fun planned' hp => ?_, fun hp => ?_, rel, hb, straight_of_valid hagree hb hvalid, fun hk => ?_⟩
    · obtain rfl := Option.some.inj (hfind.symm.trans hp)
      exact ⟨rfl, hkind⟩
    · cases hfind.symm.trans hp
    · exact hdir (hkind.trans hk)
  · have hb := below_of_safeJoin hjoin
    refine ⟨fun planned hp => ?_, fun _ hpart => ?_, _, hb, straight_of_valid hagree hb hvalid, fun hk => ?_⟩
    · cases hfind.symm.trans hp
    · rw [FsPath.filename, hb.last] at hpart
      split_ifs at hpart with hnil
      · rw [FsPath.filename, hnil]
        exact hpart
      · exact hpart
    · have hslash : endsInSlash (header.get "path") = true := by
        unfold headerKind at hk
        split_ifs at hk with hlink hdir
        · exact absurd hk (by decide)
        · simp only [isDirHeader, Bool.and_eq_true] at hdir
          exact hdir.2
        · exact absurd hk (by decide)
      exact names_dropLast_of_slash hslash rfl

theorem prepareFile_spec (hagree : Agrees env d.tree root) (hsane : Sane d.tree)
    (hb : Below env setup.currentPath rel) (hs : Straight d.tree root (names rel.dropLast))
    (hint : ¬ env.skipsExisting d.tree setup = true → Intends setup) (hname : Named setup) :
    Ensures (Built root d) (fun p d' => p.Placed env root d'.tree ∧ p.setup.planned = setup.planned ∧
      p.setup.relative = setup.relative) (env.prepareFile setup) d := by
  have hrefl : Built root d d := .refl hsane
  refine ensures_tree_bind ?_
  split_ifs with hskips
  · exact ensures_status_bind (ensures_pure ⟨.refl root d.tree, hsane, [], by simp, by simp⟩ ⟨trivial, rfl, rfl⟩)
  · refine ensures_tree_bind ?_
    split_ifs with hdup
    · obtain ⟨content, hstat⟩ : ∃ content, env.symlinkStatus d.tree setup.currentPath = some (.file content) := by
        unfold ReceiveEnv.isDuplicate at hdup
        dsimp only at hdup
        split at hdup
        next content hstat => exact ⟨content, hstat⟩
        next => cases hdup
      refine ensures_pure hrefl ⟨⟨⟨rel, hb, hs⟩, hint hskips, hname, fun hp hpol => ?_, content, hstat⟩, rfl, rfl⟩
      rw [skipsExisting_none hskips hp hpol] at hstat
      cases hstat
    · exact preparePayload_spec hagree hsane hb (hint hskips) hname (skipsExisting_none hskips)

/-- **Where a header leads.** -/
theorem prepare_spec (hagree : Agrees env d.tree root) (hsane : Sane d.tree) (hplan : PlanPlaced env plan) :
    Ensures (Built root d) (fun p d' => (p.Placed env root d'.tree ∧
        p.setup.planned = findReceivePlanEntry plan p.setup.relative ∧ p.setup.relative = header.get "path") ∧
        Grounded env root d'.tree p.setup.planned)
      (env.prepare plan header) d := by
  refine ensures_tree_bind (ensures_check_bind (.refl hsane) fun setup hsetup => ?_)
  obtain ⟨hfind, hplanned, hname, rel, hb, hs, hdir⟩ := entrySetup_spec hagree hplan hsetup
  obtain ⟨hrelative, -⟩ := entrySetup_ok hsetup
  have hkind (h : headerKind header setup.relative setup.declaredSize ≠ "dir")
      (hskips : ¬ env.skipsExisting d.tree setup = true) : Intends setup := by
    intro planned hp
    obtain ⟨htarget, hkind⟩ := hplanned planned hp
    refine ⟨htarget, fun hskip => hskips ?_, hkind ▸ h⟩
    simp [ReceiveEnv.skipsExisting, hp, hskip]
  have hlisted {p : Pending} {d' : Disk} (h : p.Placed env root d'.tree ∧ p.setup.planned = setup.planned ∧
      p.setup.relative = setup.relative) : p.Placed env root d'.tree ∧
        p.setup.planned = findReceivePlanEntry plan p.setup.relative ∧ p.setup.relative = header.get "path" := by
    obtain ⟨hp, hpl, hrel⟩ := h
    exact ⟨hp, by rw [hpl, hfind, hrel], hrel.trans hrelative⟩
  have hnone (h : headerKind header setup.relative setup.declaredSize ≠ "dir") {p : Pending} {t : Tree}
      (hp : p.setup.planned = setup.planned) : Grounded env root t p.setup.planned :=
    fun planned hpl heq => absurd ((hplanned planned (hp ▸ hpl)).2.symm.trans heq) h
  split_ifs with hlink hdirectory
  · have hsymlink : headerKind header setup.relative setup.declaredSize ≠ "dir" := by
      rw [headerKind, if_pos hlink]
      decide
    exact (prepareSymlink_spec hagree hsane hb (hkind hsymlink) hname).mono (fun _ h => h) fun p d' _ h =>
      ⟨hlisted h, hnone hsymlink h.2.1⟩
  · have hdirKind : headerKind header setup.relative setup.declaredSize = "dir" := by
      rw [headerKind, if_neg hlink, if_pos hdirectory]
    refine (prepareDirectory_spec hagree hsane hb (hdir hdirKind)).mono (fun _ h => h) fun p d' _ h =>
      ⟨hlisted h.1, fun planned hpl _ rel' hb' => ?_⟩
    have hsame : names rel' = names rel := by
      rw [← (hplanned planned (h.1.2.1 ▸ hpl)).1] at hb'
      exact List.append_cancel_left (hb'.names.symm.trans hb.names)
    rw [hsame]
    exact h.2
  · have hfile : headerKind header setup.relative setup.declaredSize ≠ "dir" := by
      rw [headerKind, if_neg hlink, if_neg hdirectory]
      decide
    exact (prepareFile_spec hagree hsane hb hs (hkind hfile) hname).mono (fun _ h => h) fun p d' _ h =>
      ⟨hlisted h, hnone hfile h.2.1⟩

end Prepare

/-! ## Plans

What a plan has checked once is used for every header that follows: an entry of a plan is below
the root because it was when the plan was made, and what has been committed since does not
change where a path leads. -/

section Plan

variable {env : ReceiveEnv} {t : Tree} {reserved : List FsPath} {entry : TransferManifestEntry}
  {current target : FsPath} {action : ReceivePlanAction} {rel : List String}

/-- Where a plan sends an entry whose path joins to `current`. -/
theorem planAction_ok (hb : Below env current rel) (h : env.planAction t reserved entry current = .ok (action, target)) :
    (∃ rel', Below env target rel') ∧ (entry.kind = "dir" → target = current) ∧
      (entry.kind ≠ "dir" → env.policy ≠ .overwrite → action ≠ .skip → env.symlinkStatus t target = none) := by
  unfold ReceiveEnv.planAction at h
  by_cases hdir : entry.kind = "dir"
  · have hcurrent : target = current := by
      rw [if_pos hdir] at h
      split at h
      · exact (Prod.mk.inj (Except.ok.inj h)).2.symm
      · exact (Prod.mk.inj (Except.ok.inj h)).2.symm
      · cases h
    rw [hcurrent]
    exact ⟨⟨rel, hb⟩, fun _ => rfl, fun hne => absurd hdir hne⟩
  rw [if_neg hdir] at h
  by_cases hexists : env.pathExistsNoFollow t current = true
  · rw [if_pos hexists] at h
    cases hpol : env.policy with
    | skip =>
      rw [hpol] at h
      obtain ⟨rfl, rfl⟩ := Prod.mk.inj (Except.ok.inj h)
      exact ⟨⟨rel, hb⟩, fun _ => rfl, fun _ _ hskip => absurd rfl hskip⟩
    | rename =>
      rw [hpol] at h
      obtain ⟨renamed, hrenamed, h⟩ := exists_of_bind_ok h
      obtain ⟨rfl, rfl⟩ := Prod.mk.inj (Except.ok.inj h)
      obtain ⟨⟨name, -, hbelow⟩, hfree, -⟩ := uniqueConflictPath_ok hb hrenamed
      exact ⟨⟨_, hbelow⟩, fun heq => absurd heq hdir, fun _ _ _ => hfree⟩
    | overwrite =>
      simp only [hpol] at h
      split_ifs at h
      obtain ⟨rfl, rfl⟩ := Prod.mk.inj (Except.ok.inj h)
      exact ⟨⟨rel, hb⟩, fun _ => rfl, fun _ hne => absurd rfl hne⟩
  · rw [if_neg hexists] at h
    obtain ⟨rfl, rfl⟩ := Prod.mk.inj (Except.ok.inj h)
    refine ⟨⟨rel, hb⟩, fun _ => rfl, fun _ _ _ => ?_⟩
    simpa [ReceiveEnv.pathExistsNoFollow] using hexists

/-- A planned entry goes below the output directory. -/
theorem PlannedFor.below {planned : ReceivePlanEntry} (h : PlannedFor env t planned) :
    ∃ rel, Below env planned.targetPath rel ∧ (planned.manifest.kind = "dir" → names rel.dropLast = names rel) := by
  obtain ⟨reserved, current, hjoin, haction⟩ := h.target
  have hb := below_of_safeJoin hjoin
  obtain ⟨⟨rel, hbelow⟩, hdir, -⟩ := planAction_ok hb haction
  by_cases hkind : planned.manifest.kind = "dir"
  · rw [hdir hkind]
    refine ⟨_, hb, fun _ => names_dropLast_of_slash ?_ rfl⟩
    obtain ⟨total, total', hok⟩ := h.kind
    unfold ReceiveEnv.checkPlanKind at hok
    rw [if_neg (by rw [hkind]; decide), if_pos hkind] at hok
    split_ifs at hok with hslash
    · simpa using hslash
  · exact ⟨rel, hbelow, fun heq => absurd heq hkind⟩

theorem find_mem {plan : ReceivePlan} {relative : String} {planned : ReceivePlanEntry}
    (h : findReceivePlanEntry (some plan) relative = some planned) : (relative, planned) ∈ plan.entries := by
  obtain ⟨before, after, hentries, -⟩ := List.lookup_eq_some_iff.mp h
  rw [hentries]
  simp

theorem PlanMade.placed {entries : List TransferManifestEntry} {plan : ReceivePlan} (h : PlanMade env t entries plan) :
    PlanPlaced env (some plan) :=
  fun _ _ hfind => (h.planned _ (find_mem hfind)).below

end Plan

/-! ## What a step may do to the disk

`Acts` lists what has been acted on, so that the footprint of a run is the list of all its
places. `Acting` and `Acted` forget the list and keep what the invariant needs. -/

/-- A place for a partial file. -/
def PartPlace (p : Place) : Prop := ∃ above stem, p = above ++ [stem ++ ".kikopart"]

/-- The receiver has acted on `new`, all of it below `root`: it has made directories, written or
    removed partial files, and, where that is among what it acted on, committed to `target`. -/
structure Acts (root : Place) (target : Option Place) (d d' : Disk) (new : List Place) : Prop where
  touched : d'.touched = d.touched ++ new
  inside : ∀ p ∈ new, root <+: p
  sane : Sane d'.tree
  tree : ∀ p, d'.tree p = d.tree p ∨ d.tree p = none ∧ d'.tree p = some .dir ∨ PartPlace p ∧ Leaf d.tree p ∨
    target = some p ∧ p ∈ new ∧ d'.tree p ≠ some .dir
  lands : ∀ p ∈ new, target = some p → d'.tree p = some .dir ∨ look d.tree p ≠ some .dir ∧ d'.tree p ≠ none

/-- It has acted, and may have committed to `target`. -/
def Acting (root : Place) (target : Option Place) (d d' : Disk) : Prop := ∃ new, Acts root target d d' new

/-- It has committed nothing. -/
abbrev Acted (root : Place) : Disk → Disk → Prop := Acting root none

section Acted

variable {root place : Place} {target : Option Place} {d d' d'' : Disk} {new new' : List Place}

theorem Acting.refl (h : Sane d.tree) : Acting root target d d :=
  ⟨[], by simp, by simp, h, fun _ => .inl rfl, by simp⟩

theorem Acting.sane (h : Acting root target d d') : Sane d'.tree := h.choose_spec.sane

theorem Acting.keeps (h : Acted root d d') : Keeps d.tree d'.tree := by
  obtain ⟨new, h⟩ := h
  have hstays {p : Place} {node : Node Bytes} (hp : d.tree p = some node) (hnode : ∀ c, node ≠ .file c) :
      d'.tree p = some node := by
    rcases h.tree p with heq | ⟨hnone, -⟩ | ⟨-, hnone | ⟨c, hfile⟩⟩ | ⟨htarget, -⟩
    · exact heq.trans hp
    · cases hnone.symm.trans hp
    · cases hnone.symm.trans hp
    · exact absurd (Option.some.inj (hp.symm.trans hfile)) (hnode c)
    · cases htarget
  exact ⟨fun hp => hstays hp (by simp), fun hp => hstays hp (by simp)⟩

theorem Acting.logged (h : Acting root target d d') (report : Report) :
    Acting root target d { d' with log := d'.log ++ [report] } := by
  obtain ⟨new, h⟩ := h
  exact ⟨new, h.touched, h.inside, h.sane, h.tree, h.lands⟩

/-- What is acted on after directories and partial files. -/
theorem Acts.after (h' : Acts root target d' d'' new') (h : Acts root none d d' new)
    (hnew : ∀ p ∈ new, target = some p → d'.tree p = some .dir) : Acts root target d d'' (new ++ new') := by
  refine ⟨by rw [h'.touched, h.touched, List.append_assoc], fun p hp => ?_, h'.sane, fun p => ?_,
    fun p hp htarget => ?_⟩
  · rcases List.mem_append.mp hp with hp | hp
    · exact h.inside p hp
    · exact h'.inside p hp
  · have hcommit (hp : target = some p ∧ p ∈ new' ∧ d''.tree p ≠ some .dir) :
        target = some p ∧ p ∈ new ++ new' ∧ d''.tree p ≠ some .dir :=
      ⟨hp.1, List.mem_append_right _ hp.2.1, hp.2.2⟩
    rcases h.tree p with heq | ⟨hnone, hdir⟩ | hpart | ⟨hnot, -⟩
    · rw [← heq]
      unfold Leaf
      rw [← heq]
      exact (h'.tree p).imp_right fun h => h.imp_right fun h => h.imp_right hcommit
    · rcases h'.tree p with heq' | ⟨hnone', -⟩ | ⟨-, hnone' | ⟨c, hfile⟩⟩ | hp
      · exact .inr (.inl ⟨hnone, heq'.trans hdir⟩)
      · cases hdir.symm.trans hnone'
      · cases hdir.symm.trans hnone'
      · cases hdir.symm.trans hfile
      · exact .inr (.inr (.inr (hcommit hp)))
    · exact .inr (.inr (.inl hpart))
    · cases hnot
  · have hlook (hl : look d'.tree p ≠ some .dir) : look d.tree p ≠ some .dir := by
      intro hdir
      by_cases hnil : p = []
      · exact hl (by rw [hnil]; rfl)
      · rw [look, if_neg hnil] at hdir hl
        exact hl (Acting.keeps ⟨new, h⟩ |>.dir hdir)
    by_cases hp' : p ∈ new'
    · exact (h'.lands p hp' htarget).imp_right fun h => ⟨hlook h.1, h.2⟩
    · have hdir := hnew p ((List.mem_append.mp hp).resolve_right hp') htarget
      rcases h'.tree p with heq' | ⟨hnone', -⟩ | ⟨-, hnone' | ⟨c, hfile⟩⟩ | ⟨-, hmem⟩
      · exact .inl (heq'.trans hdir)
      · cases hdir.symm.trans hnone'
      · cases hdir.symm.trans hnone'
      · cases hdir.symm.trans hfile
      · exact absurd hmem.1 hp'

/-- Directories stay. -/
theorem Acting.descends (h : Acting root target d d') {parts : List String} (hd : Descends d.tree place parts) :
    Descends d'.tree place parts := by
  obtain ⟨new, h⟩ := h
  intro q hq hne
  have hdir := hd q hq hne
  rcases h.tree (place ++ q) with heq | ⟨hnone, -⟩ | ⟨-, hnone | ⟨c, hfile⟩⟩ | ⟨htarget, hmem, hnot⟩
  · exact heq.trans hdir
  · cases hnone.symm.trans hdir
  · cases hnone.symm.trans hdir
  · cases hfile.symm.trans hdir
  · refine absurd ?_ ((h.lands _ hmem htarget).resolve_left hnot).1
    rw [look]
    split_ifs
    · rfl
    · exact hdir

theorem Acting.trans (h : Acted root d d') (h' : Acted root d' d'') : Acted root d d'' := by
  obtain ⟨new, h⟩ := h
  obtain ⟨new', h'⟩ := h'
  exact ⟨_, h'.after h (by simp)⟩

theorem Built.acted (h : Built root d d') : Acted root d d' := by
  obtain ⟨new, htouched, hroot⟩ := h.inside
  refine ⟨new, htouched, hroot, h.sane, fun p => ?_, by simp⟩
  exact (h.tree p).imp_right fun hp => .inl ⟨hp.1, hp.2.1⟩

theorem Noted.acted (h : Noted root d d') (hsane : Sane d.tree) : Acted root d d' := by
  obtain ⟨htree, new, htouched, hroot⟩ := h
  exact ⟨new, htouched, hroot, htree ▸ hsane, fun p => .inl (by rw [htree]), by simp⟩

/-- What has been committed is given its metadata. -/
theorem Acts.noted (h : Acts root target d d' new) (h' : Noted root d' d'')
    (hlanded : ∀ p, target = some p → p ∈ new) : Acting root target d d'' := by
  obtain ⟨htree, new', htouched, hroot⟩ := h'
  refine ⟨new ++ new', by rw [htouched, h.touched, List.append_assoc], fun p hp => ?_, htree ▸ h.sane,
    fun p => ?_, fun p _ htarget => ?_⟩
  · rcases List.mem_append.mp hp with hp | hp
    · exact h.inside p hp
    · exact hroot p hp
  · rw [htree]
    exact (h.tree p).imp_right fun h => h.imp_right fun h => h.imp_right fun hp =>
      ⟨hp.1, List.mem_append_left _ hp.2.1, hp.2.2⟩
  · rw [htree]
    exact h.lands p (hlanded p htarget) htarget

/-- A partial file is written. -/
theorem acted_set (hsane : Sane d.tree) {above : Place} {stem : String} (hroot : root <+: above)
    (hdir : look d.tree above = some .dir) (hleaf : Leaf d.tree (above ++ [stem ++ ".kikopart"]))
    {content : Bytes} (htree : d'.tree = d.tree.set (above ++ [stem ++ ".kikopart"]) (.file content))
    (htouched : d'.touched = d.touched ++ new) (hnew : ∀ p ∈ new, p = above ++ [stem ++ ".kikopart"]) :
    Acted root d d' := by
  refine ⟨new, htouched, fun p hp => ?_, ?_, fun p => ?_, by simp⟩
  · rw [hnew p hp]
    exact hroot.trans (List.prefix_append ..)
  · rw [htree]
    refine hsane.set hdir (fun heq => ?_) (by simp)
    rcases hleaf with hnone | ⟨c, hfile⟩
    · cases hnone.symm.trans heq
    · cases hfile.symm.trans heq
  · rw [htree]
    by_cases hp : p = above ++ [stem ++ ".kikopart"]
    · rw [hp]
      exact .inr (.inr (.inl ⟨⟨above, stem, rfl⟩, hleaf⟩))
    · exact .inl (Tree.set_of_ne _ _ hp)

/-- A partial file is removed. -/
theorem acting_remove (hsane : Sane d.tree) {above : Place} {stem : String} (hroot : root <+: above)
    (hleaf : Leaf d.tree (above ++ [stem ++ ".kikopart"])) (htarget : target ≠ some (above ++ [stem ++ ".kikopart"])) :
    Acting root target d { d with
      tree := d.tree.remove (above ++ [stem ++ ".kikopart"])
      touched := d.touched ++ [above ++ [stem ++ ".kikopart"]] } := by
  refine ⟨[above ++ [stem ++ ".kikopart"]], rfl, fun p hp => ?_, hsane.remove ?_, fun p => ?_,
    fun p hp heq => absurd (List.mem_singleton.mp hp ▸ heq) htarget⟩
  · rw [List.mem_singleton.mp hp]
    exact hroot.trans (List.prefix_append ..)
  · intro heq
    rcases hleaf with hnone | ⟨c, hfile⟩
    · cases hnone.symm.trans heq
    · cases hfile.symm.trans heq
  · by_cases hp : p = above ++ [stem ++ ".kikopart"]
    · rw [hp]
      exact .inr (.inr (.inl ⟨⟨above, stem, rfl⟩, hleaf⟩))
    · exact .inl (Tree.remove_of_ne _ hp)

end Acted

/-! ## The partial file

It stands beside its target, under the same directory: this is why writing it cannot disturb
the way to the target, and why the target is not changed before the move. -/

section Part

variable {env : ReceiveEnv} {root place : Place} {t : Tree} {setup : EntrySetup} {part : FsPath}

theorem partName_ne (stem : String) {other : String} (h : other.length < stem.length + 9) :
    stem ++ ".kikopart" ≠ other := by
  intro heq
  have hlength := congrArg String.length heq
  have hpart : ".kikopart".length = 9 := by decide
  rw [String.length_append, hpart] at hlength
  omega

/-- What stands beside a target under a longer name stands elsewhere. -/
theorem names_ne_concat (rel : List String) {text : String} (htext : text ≠ "") :
    names rel ≠ names rel.dropLast ++ [rel.getLast?.getD "" ++ text] := by
  rcases List.eq_nil_or_concat rel with rfl | ⟨init, name, rfl⟩
  · simp
  · rw [List.concat_eq_append, names_concat, List.dropLast_concat, List.getLast?_concat]
    intro heq
    replace heq := List.append_cancel_left heq
    split_ifs at heq
    have hname := congrArg String.toList (List.cons.inj heq).1
    simp [htext] at hname

/-- The partial file has its place beside the target. -/
theorem Opened.located (h : Opened env root t setup part) (hagree : Agrees env t root) (hsane : Sane t) :
    ∃ above stem, locate t env.cwd part = some (above ++ [stem ++ ".kikopart"]) ∧ root <+: above ∧
      look t above = some .dir ∧
      ∀ rel, Below env setup.currentPath rel → root ++ names rel ≠ above ++ [stem ++ ".kikopart"] := by
  obtain ⟨rfl, rel, haimed, hdesc⟩ := h
  have hb : Below env (partPathFor setup.currentPath) (rel.dropLast ++ [rel.getLast?.getD "" ++ ".kikopart"]) :=
    haimed.below.concat fun name => partName_ne name (Nat.lt_of_lt_of_le (by decide) (Nat.le_add_left 9 _))
  have hskip : isSkip (rel.getLast?.getD "" ++ ".kikopart") = false := by
    simp only [isSkip, Bool.or_eq_false_iff, decide_eq_false_iff_not]
    exact ⟨partName_ne _ (Nat.lt_of_lt_of_le (by decide) (Nat.le_add_left 9 _)),
      partName_ne _ (Nat.lt_of_lt_of_le (by decide) (Nat.le_add_left 9 _))⟩
  have hnames : names (rel.dropLast ++ [rel.getLast?.getD "" ++ ".kikopart"]) =
      names rel.dropLast ++ [rel.getLast?.getD "" ++ ".kikopart"] := by
    rw [names_concat, if_neg (by simp [hskip])]
  have hlocate := locate_of_descends hagree hb (by rwa [List.dropLast_concat])
  rw [hnames, ← List.append_assoc] at hlocate
  refine ⟨_, _, hlocate, List.prefix_append .., hdesc.look (hagree.dir hsane), fun rel' hb' heq => ?_⟩
  have hsame : names rel' = names rel := List.append_cancel_left (hb'.names.symm.trans haimed.below.names)
  rw [hsame, List.append_assoc] at heq
  exact names_ne_concat rel (by decide) (List.append_cancel_left heq)

/-- Writing it leaves the target as it was. -/
theorem Opened.write (h : Opened env root t setup part) (hagree : Agrees env t root) (hsane : Sane t)
    (hplace : locate t env.cwd part = some place) (hleaf : Leaf t place) (content : Bytes) :
    Opened env root (t.set place (.file content)) setup part := by
  obtain ⟨above, stem, hlocate, -, -, hne⟩ := h.located hagree hsane
  obtain rfl := Option.some.inj (hplace.symm.trans hlocate)
  obtain ⟨hpart, rel, haimed, hdesc⟩ := h
  refine ⟨hpart, rel, ⟨haimed.below, haimed.planned, haimed.named, fun hp hpol => ?_⟩,
    hdesc.keeps (hleaf.keeps_set _)⟩
  have hv := haimed.vacant hp hpol
  unfold look at hv ⊢
  rwa [Tree.set_of_ne _ _ (hne rel haimed.below)]

end Part

/-! ## The answer -/

/-- The entry a phase is about. -/
def Phase.setup? : Phase → Option EntrySetup
  | .await p => some p.setup
  | .marker setup _ | .skipping setup => some setup
  | .payload session _ _ | .received session => some session.setup
  | _ => none

/-- What a phase says of the entry it is about. -/
def Phase.Placed (env : ReceiveEnv) (root : Place) (t : Tree) : Phase → Prop
  | .await p => p.Placed env root t
  | .marker setup m => (Pending.marker setup m).Placed env root t
  | .payload session _ _ | .received session => Opened env root t session.setup session.partPath
  | _ => True

section Answer

variable {env : ReceiveEnv} {root : Place} {d : Disk} {setup : EntrySetup} {part : FsPath} {hashed : Bytes}

theorem acceptOffset_spec (accepted : Nat) (hagree : Agrees env d.tree root) (hsane : Sane d.tree)
    (hopen : Opened env root d.tree setup part) (hoff : Offered env d.tree part setup.declaredSize hashed) :
    Ensures (Acted root d)
      (fun session d' => session.setup = setup ∧ session.partPath = part ∧ Opened env root d'.tree setup part)
      (env.acceptOffset setup part hashed accepted) d := by
  have hrefl : Acted root d d := .refl hsane
  unfold ReceiveEnv.acceptOffset
  by_cases hfull : accepted = hashed.length
  · rw [if_pos hfull]
    exact ensures_pure hrefl ⟨rfl, rfl, hopen⟩
  · rw [if_neg hfull]
    have hlog := hrefl.logged (.status ("resume rejected, restarting " ++ setup.relative))
    refine ensures_status_bind (ensures_tree_bind ?_)
    split
    · exact ensures_throw hlog
    next bytes _ =>
      suffices hresize : Ensures (Acted root d) (fun _ d' => Opened env root d'.tree setup part)
          (env.resizeFile part accepted setup.relative) _ from
        hresize.bind fun _ d' hacted hopen' => ensures_pure hacted ⟨rfl, rfl, hopen'⟩
      refine ensures_tree_bind ?_
      split
      next place content hplace =>
        obtain ⟨hlocate, hleaf, -, -⟩ := partPlace_offered hoff hplace
        refine ensures_tree_bind ?_
        split_ifs
        · exact ensures_throw hlog
        · obtain ⟨above, stem, hlocate', hroot, hdir, -⟩ := hopen.located hagree hsane
          obtain rfl := Option.some.inj (hlocate.symm.trans hlocate')
          refine ensures_tree_bind (ensures_modify ?_ (hopen.write hagree hsane hlocate hleaf _))
          exact acted_set hsane hroot hdir hleaf rfl rfl (by simp)
      next => exact ensures_throw hlog

theorem openPart_spec {session : PayloadSession} (hagree : Agrees env d.tree root) (hsane : Sane d.tree)
    (hopen : Opened env root d.tree session.setup session.partPath) (hready : Ready env d.tree session) :
    Ensures (Acted root d)
      (fun next d' => next.Placed env root d'.tree ∧ next.setup? = some session.setup)
      (env.openPart session) d := by
  refine ensures_tree_bind ?_
  split
  · exact ensures_throw (.refl hsane)
  next place content hplace =>
    obtain ⟨hlocate, hleaf, -, -⟩ := partPlace_offered hready.offered hplace
    obtain ⟨above, stem, hlocate', hroot, hdir, -⟩ := hopen.located hagree hsane
    obtain rfl := Option.some.inj (hlocate.symm.trans hlocate')
    have hacted : Acted root d
        { d with
          tree := d.tree.set (above ++ [stem ++ ".kikopart"]) (.file session.hashed)
          touched := d.touched ++ [above ++ [stem ++ ".kikopart"]] } :=
      acted_set hsane hroot hdir hleaf rfl rfl (by simp)
    exact ⟨hacted, hopen.write hagree hsane hlocate hleaf _, rfl⟩

/-- **What an answer leads to.** -/
theorem settle_spec {p : Pending} (frame : Frame) (hagree : Agrees env d.tree root) (hsane : Sane d.tree)
    (hp : p.Placed env root d.tree) (hsound : (Phase.await p).Sound env d.tree) :
    Ensures (Acted root d)
      (fun next d' => next.Placed env root d'.tree ∧ ∃ setup, next.setup? = some setup ∧
        setup.planned = p.setup.planned ∧ setup.relative = p.setup.relative)
      (env.settle p frame) d := by
  have hrefl : Acted root d d := .refl hsane
  cases p with
  | marker setup marker =>
    suffices h : Ensures (Acted root d) (fun result d' => result = .inl (.marker setup marker) ∧ d' = d)
        (env.onAck (.marker setup marker) frame) d by
      refine h.bind ?_
      rintro _ d' hacted ⟨rfl, rfl⟩
      exact ensures_pure hacted ⟨hp, setup, rfl, rfl, rfl⟩
    exact ensures_check_bind hrefl fun _ _ => ensures_pure hrefl ⟨rfl, rfl⟩
  -- a skipped entry is settled, or the answer is refused
  | conflictSkip setup =>
    suffices h : Ensures (Acted root d) (fun result _ => result = .inl (.skipPayload setup))
        (env.onAck (.conflictSkip setup) frame) d by
      refine h.bind ?_
      rintro _ d' hacted rfl
      exact ensures_pure hacted ⟨trivial, setup, rfl, rfl, rfl⟩
    refine ensures_check_bind hrefl fun accepted _ => ?_
    split_ifs
    · exact ensures_throw hrefl
    · exact ensures_pure hrefl rfl
  -- a duplicate is settled, or asked about again as a file to be written
  | duplicate setup =>
    obtain ⟨⟨rel, hb, hs⟩, hint, hname, hpol, content, hstat⟩ := hp
    suffices h : Ensures (Acted root d)
        (fun result d' => result = .inl (.skipPayload setup) ∨ ∃ p', result = .inr p' ∧
          p'.Placed env root d'.tree ∧ p'.setup.planned = setup.planned ∧ p'.setup.relative = setup.relative)
        (env.onAck (.duplicate setup) frame) d by
      refine h.bind ?_
      rintro _ d' hacted (rfl | ⟨p', rfl, hp', hlisted⟩)
      · exact ensures_pure hacted ⟨trivial, setup, rfl, rfl, rfl⟩
      · exact ensures_pure hacted ⟨hp', p'.setup, rfl, hlisted⟩
    refine ensures_check_bind hrefl fun accepted _ => ?_
    split_ifs
    · -- the sender has another file: it is asked about once more
      have hask := preparePayload_spec hagree hsane hb hint hname fun hplanned hskip => absurd hskip (hpol hplanned)
      refine (hask.mono (fun _ h => h.acted) fun _ _ _ h => h).bind fun p' d' hacted hp' => ?_
      exact ensures_pure hacted (.inr ⟨p', rfl, hp'⟩)
    · have hplace : ∀ place, locate d.tree env.cwd setup.currentPath = some place →
          root <+: place ∧ ∀ target, look d.tree place ≠ some (.symlink target) := by
        intro place hlocate
        refine ⟨(locate_below hagree hb hs hlocate).1 ▸ List.prefix_append .., fun target heq => ?_⟩
        rw [ReceiveEnv.symlinkStatus, lstat, hlocate, Option.bind_some, heq] at hstat
        cases hstat
      have hnote := applyFileMetadata_spec setup.header hplace
      refine (hnote.mono (fun _ h => h.acted hsane) fun _ _ _ h => h).bind fun _ d' hacted _ => ?_
      exact ensures_status_bind (ensures_pure (hacted.logged _) (.inl rfl))
  -- the partial file is opened, cut or started over, at the place it was checked at
  | payload setup part hashed prefixSha256 =>
    suffices h : Ensures (Acted root d)
        (fun result d' => ∃ session, result = .inl (.receivePayload session) ∧ session.setup = setup ∧
          session.partPath = part ∧ Opened env root d'.tree setup part ∧ Ready env d'.tree session)
        (env.onAck (.payload setup part hashed prefixSha256) frame) d by
      refine h.bind ?_
      rintro _ d' hacted ⟨session, rfl, rfl, rfl, hopen, hready⟩
      have hopened := openPart_spec (hagree.keeps hacted.keeps) hacted.sane hopen hready
      exact hopened.mono (fun _ h => hacted.trans h) fun next d'' _ h => ⟨h.1, _, h.2, rfl, rfl⟩
    refine ensures_check_bind hrefl fun accepted hack => ?_
    refine Ensures.bind (Q := fun session d' => (session.setup = setup ∧ session.partPath = part ∧
      Opened env root d'.tree setup part) ∧ Ready env d'.tree session) ?_ ?_
    · have hspec := acceptOffset_spec accepted hagree hsane hp hsound
      refine ensures_of (fun session d' hok => ?_) fun e d' herror => hspec.error herror
      obtain ⟨-, hpart, -, hlength, hoff⟩ := acceptOffset_offered hsound (recvResumeAck_le hack) hok
      obtain ⟨hacted, hopen⟩ := hspec.ok hok
      refine ⟨hacted, hopen, hlength, ?_⟩
      rw [hpart, hopen.1]
      exact hoff
    · rintro session d' hacted ⟨⟨hsetup, hpart, hopen⟩, hready⟩
      exact ensures_pure hacted ⟨session, rfl, hsetup, hpart, hopen, hready⟩

end Answer

/-! ## The end of an entry

A move puts one node in the place of another. It is done through `atomicReplaceFile`, which
refuses to replace a directory; that refusal is what keeps the ways to other targets. -/

section Commit

variable {env : ReceiveEnv} {root source : Place} {d d' : Disk} {setup : EntrySetup} {part current : FsPath}
  {rel : List String}

/-- What is moved into place: a file, or a link with a target. -/
def Moved (node : Node Bytes) : Prop := (∃ content, node = .file content) ∨ ∃ target, target ≠ "" ∧ node = .symlink target

/-- What stands beside the target is moved over it, unless a directory stands there. -/
theorem atomicReplaceFile_spec {node : Node Bytes} {context : String} (hagree : Agrees env d.tree root)
    (hsane : Sane d.tree) (hb : Below env current rel) (hdesc : Descends d.tree root (names rel.dropLast))
    (hroot : root <+: source) (hsource : d.tree source = none ∨ PartPlace source ∧ Leaf d.tree source)
    (hne : root ++ names rel ≠ source) (hnode : Moved node) :
    Ensures (Acting root (some (root ++ names rel)) d)
      (fun _ d' => d'.tree = (d.tree.remove source).set (root ++ names rel) node ∧
        Acts root (some (root ++ names rel)) d d' [source, root ++ names rel])
      (env.atomicReplaceFile source node current context) d := by
  have hrefl : Acting root (some (root ++ names rel)) d d := .refl hsane
  refine ensures_tree_bind ?_
  rw [locate_of_descends hagree hb hdesc]
  dsimp only
  split_ifs with hisDir
  · exact ensures_throw hrefl
  · have hlook : look d.tree (root ++ names rel) ≠ some .dir := fun heq => hisDir (isDir_iff.mpr heq)
    have habove := hdesc.look (hagree.dir hsane)
    obtain ⟨last, hnames, hlength, -⟩ := locate_eq hagree hb
    -- The path to the target ends in one name: a target that is the root itself would be a
    -- directory.
    obtain ⟨name, rfl⟩ : ∃ name, last = [name] := by
      cases last with
      | nil =>
        rw [List.append_nil] at hnames
        exact absurd (hnames ▸ habove) hlook
      | cons name rest =>
        obtain rfl : rest = [] := List.length_eq_zero_iff.mp (by simpa using hlength)
        exact ⟨name, rfl⟩
    rw [hnames, ← List.append_assoc] at hne hlook ⊢
    have hbelow : root <+: root ++ names rel.dropLast := List.prefix_append ..
    generalize root ++ names rel.dropLast = above at *
    have hleaf : Leaf d.tree source := hsource.elim .inl (·.2)
    have hsourceDir : d.tree source ≠ some .dir := by
      rcases hleaf with hnone | ⟨c, hfile⟩
      · simp [hnone]
      · simp [hfile]
    -- The directory around the target is not what is moved away, so it is there still.
    have haboveSource : look (d.tree.remove source) above = some .dir := by
      unfold look at habove ⊢
      split_ifs at habove ⊢
      · rfl
      · rwa [Tree.remove_of_ne]
        rintro rfl
        exact hsourceDir habove
    have htarget : (d.tree.remove source) (above ++ [name]) ≠ some .dir := by
      rw [Tree.remove_of_ne _ hne]
      rwa [look, if_neg (by simp)] at hlook
    have hacts : Acts root (some (above ++ [name])) d
        { d with
          tree := (d.tree.remove source).set (above ++ [name]) node
          touched := d.touched ++ [source, above ++ [name]] } [source, above ++ [name]] := by
      refine ⟨rfl, fun p hp => ?_, ?_, fun p => ?_, fun p _ hp => ?_⟩
      · rcases List.mem_cons.mp hp with rfl | hp
        · exact hroot
        · exact List.mem_singleton.mp hp ▸ hbelow.trans (List.prefix_append ..)
      · refine (hsane.remove hsourceDir).set haboveSource (fun heq => absurd heq htarget) ?_
        rintro target rfl
        rcases hnode with ⟨c, hfile⟩ | ⟨target', hne', heq⟩
        · cases hfile
        · exact Node.symlink.inj heq ▸ hne'
      · by_cases hp : p = above ++ [name]
        · refine .inr (.inr (.inr ⟨by rw [hp], by simp [hp], ?_⟩))
          rw [hp]
          rcases hnode with ⟨c, rfl⟩ | ⟨target, -, rfl⟩
          · simp
          · simp
        · dsimp only
          rw [Tree.set_of_ne _ _ hp]
          by_cases hps : p = source
          · rw [hps]
            rcases hsource with hnone | hpart
            · exact .inl (by rw [Tree.remove_self, hnone])
            · exact .inr (.inr (.inl hpart))
          · exact .inl (Tree.remove_of_ne _ hps)
      · obtain rfl := Option.some.inj hp
        exact .inr ⟨hlook, by simp⟩
    exact ⟨⟨_, hacts⟩, rfl, hacts⟩

/-- A partial file that has been checked is a file, or is not there. -/
theorem leaf_of_valid {t : Tree} {place : Place} {relative : String}
    (hv : env.validateReceivePartPath t part relative = .ok ()) (hlocate : locate t env.cwd part = some place)
    (hne : place ≠ []) : Leaf t place := by
  have hstat : env.symlinkStatus t part = t place := by
    rw [ReceiveEnv.symlinkStatus, lstat, hlocate, Option.bind_some, look, if_neg hne]
  unfold ReceiveEnv.validateReceivePartPath at hv
  rw [hstat] at hv
  split at hv
  next hnone => exact .inl hnone
  next content hfile => exact .inr ⟨content, hfile⟩
  next => cases hv

theorem removeFile_spec {target : Option Place} (hsane : Sane d.tree) {above : Place} {stem : String}
    (hroot : root <+: above) (hlocate : locate d.tree env.cwd part = some (above ++ [stem ++ ".kikopart"]))
    (hleaf : Leaf d.tree (above ++ [stem ++ ".kikopart"])) (htarget : target ≠ some (above ++ [stem ++ ".kikopart"])) :
    Ensures (Acting root target d) (fun _ _ => True) (env.removeFile part) d := by
  refine ensures_tree_bind ?_
  rw [hlocate]
  refine ensures_tree_bind ?_
  split_ifs
  · exact ensures_pure (.refl hsane) trivial
  · exact ensures_tree_bind (ensures_modify (acting_remove hsane hroot hleaf htarget) trivial)

/-- A verification changes nothing, but for the partial file of what fails. -/
theorem verifyReceivedDigest_spec {target : Option Place} {relative expected actual : String}
    {received declared : Nat} (hsane : Sane d.tree) {above : Place} {stem : String}
    (hroot : root <+: above) (hlocate : locate d.tree env.cwd part = some (above ++ [stem ++ ".kikopart"]))
    (hleaf : Leaf d.tree (above ++ [stem ++ ".kikopart"])) (htarget : target ≠ some (above ++ [stem ++ ".kikopart"])) :
    Ensures (Acting root target d) (fun _ d' => d' = d)
      (env.verifyReceivedDigest part relative received declared expected actual) d := by
  refine ensures_tree_bind ?_
  split
  · exact ensures_pure (.refl hsane) rfl
  · have hremove := removeFile_spec hsane hroot hlocate hleaf htarget
    exact hremove.bind fun _ d' hacting _ => ensures_throw hacting

theorem verifyPartFileDigest_spec {target : Option Place} {relative expected : String} {declared : Nat}
    (hsane : Sane d.tree) {above : Place} {stem : String} (hroot : root <+: above)
    (hlocate : locate d.tree env.cwd part = some (above ++ [stem ++ ".kikopart"]))
    (hleaf : Leaf d.tree (above ++ [stem ++ ".kikopart"])) (htarget : target ≠ some (above ++ [stem ++ ".kikopart"])) :
    Ensures (Acting root target d) (fun _ d' => d' = d)
      (env.verifyPartFileDigest part relative declared expected) d := by
  refine ensures_tree_bind ?_
  split
  · exact verifyReceivedDigest_spec hsane hroot hlocate hleaf htarget
  · have hremove := removeFile_spec hsane hroot hlocate hleaf htarget
    exact hremove.bind fun _ d' hacting _ => ensures_throw hacting

/-- After the move the target is found where it was. -/
theorem locate_of_moved {place : Place} {node : Node Bytes} (hagree : Agrees env d.tree root)
    (hb : Below env current rel) (hdesc : Descends d.tree root (names rel.dropLast)) (hnode : ∀ target, node ≠ .symlink target)
    (hdir : node ≠ .dir) (htree : d'.tree = (d.tree.remove source).set (root ++ names rel) node)
    (hlocate : locate d'.tree env.cwd current = some place) : place = root ++ names rel := by
  have hback : Keeps d'.tree d.tree := by
    have hstood {p : Place} {node' : Node Bytes} (hp : d'.tree p = some node') (hne : node' ≠ node) :
        d.tree p = some node' := by
      rw [htree] at hp
      by_cases hpt : p = root ++ names rel
      · rw [hpt, Tree.set_self] at hp
        exact absurd (Option.some.inj hp).symm hne
      · rw [Tree.set_of_ne _ _ hpt] at hp
        by_cases hps : p = source
        · rw [hps, Tree.remove_self] at hp
          cases hp
        · rwa [Tree.remove_of_ne _ hps] at hp
    exact ⟨fun hp => hstood hp hdir.symm, fun hp => hstood hp (hnode _).symm⟩
  have := locate_keeps hback hlocate
  rw [locate_of_descends hagree hb hdesc] at this
  exact (Option.some.inj this).symm

/-- **The end of a payload** changes what stands at the target of its entry. -/
theorem completeReceived_spec {session : PayloadSession} {expected actual : String} {size : Nat}
    (hagree : Agrees env d.tree root) (hsane : Sane d.tree)
    (hopen : Opened env root d.tree session.setup session.partPath) :
    ∃ rel, Aimed env root d.tree session.setup rel ∧ Descends d.tree root (names rel.dropLast) ∧
      Ensures (Acting root (some (root ++ names rel)) d) (fun _ _ => True)
        (env.completeReceived session expected size actual) d := by
  obtain ⟨above, stem, hlocate, hroot, -, hne⟩ := hopen.located hagree hsane
  obtain ⟨rel, haimed, hdesc⟩ := hopen.2
  refine ⟨rel, haimed, hdesc, ?_⟩
  have hrefl : Acting root (some (root ++ names rel)) d d := .refl hsane
  have htarget : some (root ++ names rel) ≠ some (above ++ [stem ++ ".kikopart"]) :=
    fun heq => hne rel haimed.below (Option.some.inj heq)
  refine ensures_tree_bind (ensures_check_bind hrefl fun _ _ => ensures_tree_bind ?_)
  refine ensures_check_bind hrefl fun _ hpart => ?_
  have hleaf := leaf_of_valid hpart hlocate (by simp)
  extract_lets commit
  -- the two ways to the digest come to one move
  suffices hcommit : Ensures (Acting root (some (root ++ names rel)) d) (fun _ _ => True) (commit ()) d by
    split_ifs
    · refine (verifyPartFileDigest_spec hsane hroot hlocate hleaf htarget).bind ?_
      rintro _ _ - rfl
      exact hcommit
    · refine (verifyReceivedDigest_spec hsane hroot hlocate hleaf htarget).bind ?_
      rintro _ _ - rfl
      exact hcommit
  -- the move: the partial file goes, and the target comes
  have hmove : Ensures (Acting root (some (root ++ names rel)) d)
      (fun _ d' => ∃ content, d'.tree =
          (d.tree.remove (above ++ [stem ++ ".kikopart"])).set (root ++ names rel) (.file content) ∧
        Acts root (some (root ++ names rel)) d d' [above ++ [stem ++ ".kikopart"], root ++ names rel])
      (env.finalizePartFile session.partPath session.setup.currentPath) d := by
    refine ensures_tree_bind ?_
    rw [hlocate, Option.bind_some]
    split
    next source content hsource =>
      obtain ⟨_, -, heq⟩ := Option.map_eq_some_iff.mp hsource
      obtain rfl := (Prod.mk.inj heq).1
      have hreplace := @atomicReplaceFile_spec env root (above ++ [stem ++ ".kikopart"]) d session.setup.currentPath
        rel (.file content) "failed to finalize file " hagree hsane haimed.below hdesc
        (hroot.trans (List.prefix_append ..)) (.inr ⟨⟨above, stem, rfl⟩, hleaf⟩) (hne rel haimed.below)
        (.inl ⟨content, rfl⟩)
      exact hreplace.mono (fun _ h => h) fun _ _ _ h => ⟨content, h⟩
    next => exact ensures_throw hrefl
  refine hmove.bind ?_
  rintro _ d₁ hacting ⟨content, htree, hacts⟩
  have hplace : ∀ place, locate d₁.tree env.cwd session.setup.currentPath = some place →
      root <+: place ∧ ∀ target, look d₁.tree place ≠ some (.symlink target) := by
    intro place hplace
    obtain rfl := locate_of_moved hagree haimed.below hdesc (by simp) (by simp) htree hplace
    refine ⟨List.prefix_append .., fun target heq => ?_⟩
    unfold look at heq
    split_ifs at heq
    · cases heq
    · rw [htree, Tree.set_self] at heq
      cases heq
  -- permissions and time change no node
  have hnote := applyFileMetadata_spec session.setup.header hplace
  refine (hnote.mono (fun _ h => hacts.noted h fun p hp => ?_) fun _ _ _ h => h).bind fun _ _ hacting _ =>
    ensures_pure hacting trivial
  rw [← Option.some.inj hp]
  simp

theorem symlinkTarget_ne {relative target : String} (h : validateSafeSymlinkTarget relative target = .ok ()) :
    target ≠ "" := by
  rintro rfl
  unfold validateSafeSymlinkTarget at h
  split_ifs at h with _ _ hsafe
  exact absurd hsafe (by decide)

/-- The name of a temporary link is a name. -/
theorem linkName_ne (name code : String) {other : String} (h : other.length < 9) :
    name ++ (".linktmp-" ++ code) ≠ other := by
  intro heq
  have hlength := congrArg String.length heq
  have htmp : ".linktmp-".length = 9 := by decide
  rw [String.length_append, String.length_append, htmp] at hlength
  omega

/-- **The end of a marker** changes what stands at the target of its entry. -/
theorem completeMarker_spec {target : String} (hagree : Agrees env d.tree root) (hsane : Sane d.tree)
    (haimed : Aimed env root d.tree setup rel) :
    Ensures (fun d' => Acting root (some (root ++ names rel)) d d' ∧
        (d'.touched = d.touched ∨ Descends d'.tree root (names rel.dropLast))) (fun _ _ => True)
      (env.completeMarker setup (.symlink target false)) d := by
  have hrefl : Acting root (some (root ++ names rel)) d d ∧
      (d.touched = d.touched ∨ Descends d.tree root (names rel.dropLast)) := ⟨.refl hsane, .inl rfl⟩
  have hb := haimed.below
  refine ensures_tree_bind (ensures_check_bind hrefl fun _ hvalid => ensures_check_bind hrefl fun _ hsafe => ?_)
  obtain ⟨d₁, hmake, hbuilt, hdesc, made, htouched, hmade⟩ :=
    createParent_below hagree hsane hb (straight_of_valid hagree hb hvalid)
  obtain ⟨new, hacts⟩ := hbuilt.acted
  obtain rfl : new = made := List.append_cancel_left (hacts.touched.symm.trans htouched)
  have hafter {d₂ : Disk} (h : Acting root (some (root ++ names rel)) d₁ d₂) :
      Acting root (some (root ++ names rel)) d d₂ ∧
        (d₂.touched = d.touched ∨ Descends d₂.tree root (names rel.dropLast)) := by
    refine ⟨?_, .inr (h.descends hdesc)⟩
    obtain ⟨new', h⟩ := h
    exact ⟨_, h.after hacts fun p hp _ => hmade p hp⟩
  refine ensures_ok_bind hmake (ensures_tree_bind ?_)
  have hagree₁ := hagree.keeps hbuilt.tree.keeps
  -- the link is made under another name in the same directory
  have hbtemp : Below env (setup.currentPath.concat (".linktmp-" ++ env.linkCode)) _ :=
    hb.concat fun name => linkName_ne name env.linkCode (by decide)
  have hlocate := locate_of_descends hagree₁ hbtemp (by rwa [List.dropLast_concat])
  have hskip : isSkip (rel.getLast?.getD "" ++ (".linktmp-" ++ env.linkCode)) = false := by
    simp only [isSkip, Bool.or_eq_false_iff, decide_eq_false_iff_not]
    exact ⟨linkName_ne _ _ (by decide), linkName_ne _ _ (by decide)⟩
  rw [names_concat, if_neg (by simp [hskip])] at hlocate
  have hne := @names_ne_concat rel (".linktmp-" ++ env.linkCode) (linkName_ne "" env.linkCode (by decide))
  rw [hlocate]
  generalize htemp : names rel.dropLast ++ [rel.getLast?.getD "" ++ (".linktmp-" ++ env.linkCode)] = temp at *
  dsimp only
  split_ifs with hexists
  · exact ensures_throw (hafter (.refl hbuilt.sane))
  · have hnone : d₁.tree (root ++ temp) = none := by simpa using hexists
    have htouch : Acts root none d₁ { d₁ with touched := d₁.touched ++ [root ++ temp] } [root ++ temp] :=
      ⟨rfl, fun p hp => List.mem_singleton.mp hp ▸ List.prefix_append .., hbuilt.sane, fun _ => .inl rfl, by simp⟩
    have hreplace := @atomicReplaceFile_spec env root (root ++ temp)
      { d₁ with touched := d₁.touched ++ [root ++ temp] } setup.currentPath rel (.symlink target)
      "failed to finalize symlink " hagree₁ hbuilt.sane hb hdesc (List.prefix_append ..) (.inl hnone)
      (fun heq => hne (List.append_cancel_left heq)) (.inr ⟨target, symlinkTarget_ne hsafe, rfl⟩)
    refine hreplace.mono (fun d₂ h => hafter ?_) fun _ _ _ _ => trivial
    obtain ⟨new', h⟩ := h
    refine ⟨_, h.after htouch fun p hp heq => absurd ?_ hne⟩
    rw [List.mem_singleton.mp hp] at heq
    exact List.append_cancel_left (Option.some.inj heq)

end Commit

/-! ## A step

One lemma for all operations of a receiver, by cases on what it does. Only a trailer may change
a target (`Intake.Ends`); everything else acts on directories and on partial files. -/

/-- The entry that the next trailer puts at its target. -/
def Phase.target? : Phase → Option EntrySetup
  | .marker setup (.symlink _ false) => some setup
  | .payload session _ _ | .received session => some session.setup
  | _ => none

/-- What holds of a receiver between its operations, where the output directory is at `root`. -/
structure Intake.Placed (env : ReceiveEnv) (root : Place) (s : Intake) : Prop where
  sane : Sane s.disk.tree
  plan : PlanPlaced env s.plan
  phase : s.phase.Placed env root s.disk.tree

/-- A trailer has ended an entry, and what was announced may stand at its target. -/
structure Intake.Ends (env : ReceiveEnv) (root : Place) (s : Intake) (f : Option Frame) (s' : Intake)
    (setup : EntrySetup) (rel : List String) : Prop where
  frame : ∃ trailer, f = some (.fileEnd trailer)
  aimed : Aimed env root s.disk.tree setup rel
  entry : s.phase.target? = some setup
  acting : Acting root (some (root ++ names rel)) s.disk s'.disk
  way : s'.disk.touched = s.disk.touched ∨ Descends s'.disk.tree root (names rel.dropLast)
  after : s'.phase.setup? = none

/-- No trailer has ended an entry, or none of an entry that goes to a target, or it was refused. -/
def Intake.GoesOn (s : Intake) (f : Option Frame) (s' : Intake) : Prop :=
  (∀ trailer, f ≠ some (.fileEnd trailer)) ∨ s.phase.target? = none ∨ s'.disk = s.disk

/-- What a step has done to the disk. -/
def Intake.Does (env : ReceiveEnv) (root : Place) (s : Intake) (f : Option Frame) (s' : Intake) : Prop :=
  Acted root s.disk s'.disk ∧ s.GoesOn f s' ∨ ∃ setup rel, s.Ends env root f s' setup rel

section Step

variable {env : ReceiveEnv} {root : Place} {s s' : Intake} {f : Option Frame}

theorem recordReceivePlanHeader_ok {plan plan' : Option ReceivePlan} {relative : String}
    (h : recordReceivePlanHeader plan relative = .ok plan') :
    plan = none ∧ plan' = none ∨ ∃ p, plan = some p ∧ relative ∉ p.receivedPaths ∧
      (∃ planned, findReceivePlanEntry plan relative = some planned) ∧
      plan' = some { p with receivedPaths := p.receivedPaths ++ [relative] } := by
  cases plan with
  | none => exact .inl ⟨rfl, (Except.ok.inj h).symm⟩
  | some p =>
    simp only [recordReceivePlanHeader] at h
    split_ifs at h with hlisted hreceived
    have hfound : findReceivePlanEntry (some p) relative ≠ none :=
      fun hnone => hlisted (Option.isNone_iff_eq_none.mpr hnone)
    exact .inr ⟨p, rfl, hreceived, Option.ne_none_iff_exists'.mp hfound, (Except.ok.inj h).symm⟩

/-- Recording a header does not change where entries go. -/
theorem find_of_recorded {plan plan' : Option ReceivePlan} {relative : String}
    (h : recordReceivePlanHeader plan relative = .ok plan') (other : String) :
    findReceivePlanEntry plan' other = findReceivePlanEntry plan other := by
  rcases recordReceivePlanHeader_ok h with ⟨rfl, rfl⟩ | ⟨p, rfl, -, -, rfl⟩
  · rfl
  · rfl

theorem Intake.after_plan {α : Type} (m : ReceiveM α) (next : α → Phase) : (s.after m next).plan = s.plan := by
  unfold Intake.after
  cases m s.disk <;> rfl

/-- The receiver after an operation of which something is known. -/
theorem Intake.after_of {α : Type} {m : ReceiveM α} {next : α → Phase} {R : Disk → Prop} {Q : α → Disk → Prop}
    (h : Ensures R Q m s.disk) : R (s.after m next).disk ∧
      ((∃ a, Q a (s.after m next).disk ∧ (s.after m next).phase = next a) ∨
        ∃ e, (s.after m next).phase = .thrown e) := by
  unfold Intake.after
  cases hm : m s.disk with
  | ok a d =>
    obtain ⟨hR, hQ⟩ := h.ok hm
    exact ⟨hR, .inl ⟨a, hQ, rfl⟩⟩
  | error e d => exact ⟨h.error hm, .inr ⟨e, rfl⟩⟩

/-- Where an entry has ended, nothing is said of the next. -/
theorem Intake.after_idle {α : Type} (s : Intake) (m : ReceiveM α) :
    (s.after m fun _ => .idle).phase.setup? = none ∧
      ∀ (env : ReceiveEnv) (root : Place) (t : Tree), (s.after m fun _ => .idle).phase.Placed env root t := by
  unfold Intake.after
  cases m s.disk with
  | ok a d => exact ⟨rfl, fun _ _ _ => trivial⟩
  | error e d => exact ⟨rfl, fun _ _ _ => trivial⟩

/-- A payload is written into the partial file that is open. -/
theorem put_acted {session : PayloadSession} {out : Place} {content : Bytes} {d : Disk}
    (hagree : Agrees env d.tree root) (hsane : Sane d.tree)
    (hopen : Opened env root d.tree session.setup session.partPath)
    (hstored : Stored env d.tree session.partPath out content) (content' : Bytes) :
    Acted root d (d.put out content') ∧
      Opened env root (d.put out content').tree session.setup session.partPath := by
  obtain ⟨above, stem, hlocate, hroot, hdir, -⟩ := hopen.located hagree hsane
  obtain rfl := Option.some.inj (hstored.located.symm.trans hlocate)
  have hleaf : Leaf d.tree (above ++ [stem ++ ".kikopart"]) := .inr ⟨content, hstored.holds⟩
  exact ⟨acted_set hsane hroot hdir hleaf rfl (List.append_nil _).symm (by simp),
    hopen.write hagree hsane hlocate hleaf content'⟩

/-- **One step.** What is placed stays placed, and the disk has changed below `root` only, by
    directories and partial files, and by a trailer at the target of its entry. -/
theorem Intake.Placed.step (h : s.Placed env root) (hagree : Agrees env s.disk.tree root) (hsound : s.Sound env)
    (hs : Intake.Step env s f s') : s'.Placed env root ∧ s.Does env root f s' := by
  have hphase := h.phase
  cases hs with
  | @manifest text manifest plan d hlate honce hdecode hplan =>
    obtain ⟨⟨summary, hpre⟩, htree, htouched⟩ := preflightTransferManifest_ok hplan
    have hacted : Acted root s.disk d :=
      ⟨[], by simp [htouched], by simp, htree ▸ h.sane, fun p => .inl (by rw [htree]), by simp⟩
    refine ⟨⟨hacted.sane, (preflight_made hpre).placed, ?_⟩, .inl ⟨hacted, .inl (by simp)⟩⟩
    dsimp only
    rw [htree]
    exact hphase
  -- A header may make directories, and it leaves a question or a session behind.
  | @header header plan hidle hpath hrecord =>
    have hplan : PlanPlaced env plan := fun relative planned hfind =>
      h.plan relative planned ((find_of_recorded hrecord relative).symm.trans hfind)
    have hspec := @prepare_spec env root plan header s.disk hagree h.sane hplan
    obtain ⟨hbuilt, hnext⟩ := @after_of { s with plan := plan, sawFileHeader := true } _ _ Phase.await _ _ hspec
    refine ⟨⟨hbuilt.sane, by rw [after_plan]; exact hplan, ?_⟩, .inl ⟨hbuilt.acted, .inl (by simp)⟩⟩
    rcases hnext with ⟨p, hp, heq⟩ | ⟨e, heq⟩
    · rw [heq]
      exact hp.1.1
    · rw [heq]
      trivial
  -- The answer opens the partial file, or cuts it, or refuses.
  | @ack p frame hwait =>
    rw [hwait] at hphase
    have hpending : (Phase.await p).Sound env s.disk.tree := hwait ▸ hsound.disk
    obtain ⟨hacted, hnext⟩ := after_of (settle_spec frame hagree h.sane hphase hpending)
    refine ⟨⟨hacted.sane, by rw [after_plan]; exact h.plan, ?_⟩,
      .inl ⟨hacted, .inr (.inl (by rw [hwait]; rfl))⟩⟩
    rcases hnext with ⟨next, hplaced, heq⟩ | ⟨e, heq⟩
    · rw [heq]
      exact hplaced.1
    · rw [heq]
      trivial
  -- Bytes go into the partial file that is open, wherever in it the readers have put them.
  | @put f session out content content' next hpayload hquiet hnext =>
    have hstored : Stored env s.disk.tree session.partPath out content := by
      have := hsound.disk
      rwa [hpayload] at this
    rw [hpayload] at hphase
    obtain ⟨hacted, hopen⟩ := put_acted hagree h.sane hphase hstored content'
    refine ⟨⟨hacted.sane, h.plan, ?_⟩, .inl ⟨hacted, .inl ?_⟩⟩
    · rcases hnext with rfl | rfl | ⟨e, rfl⟩
      · exact hopen
      · exact hopen
      · trivial
    · rintro trailer rfl
      exact hquiet
  | @marker setup marker trailer hmarker =>
    rw [hmarker] at hphase
    have hover := s.after_idle (env.completeMarker setup marker)
    have hidle (hsane : Sane (s.after (env.completeMarker setup marker) fun _ => .idle).disk.tree) :
        (s.after (env.completeMarker setup marker) fun _ => .idle).Placed env root :=
      ⟨hsane, by rw [after_plan]; exact h.plan, hover.2 env root _⟩
    have hnothing (hpure : env.completeMarker setup marker = pure ()) :
        Acted root s.disk (s.after (env.completeMarker setup marker) fun _ => .idle).disk := by
      rw [hpure]
      exact .refl h.sane
    match marker with
    | .directory =>
      exact ⟨hidle (hnothing rfl).sane, .inl ⟨hnothing rfl, .inr (.inl (by rw [hmarker]; rfl))⟩⟩
    | .symlink target true =>
      exact ⟨hidle (hnothing rfl).sane, .inl ⟨hnothing rfl, .inr (.inl (by rw [hmarker]; rfl))⟩⟩
    | .symlink target false =>
      obtain ⟨rel, haimed⟩ := hphase
      obtain ⟨⟨hacting, hway⟩, -⟩ :=
        @after_of _ _ _ (fun _ => .idle) _ _ (@completeMarker_spec _ _ _ _ _ target hagree h.sane haimed)
      have hentry : s.phase.target? = some setup := by
        rw [hmarker]
        rfl
      exact ⟨hidle hacting.sane, .inr ⟨setup, rel, ⟨trailer, rfl⟩, haimed, hentry, hacting, hway, hover.1⟩⟩
  | skipped hskipping => exact ⟨⟨h.sane, h.plan, trivial⟩, .inl ⟨.refl h.sane, .inr (.inr rfl)⟩⟩
  | @commit session trailer size actual hdigested =>
    have hopen : Opened env root s.disk.tree session.setup session.partPath ∧ s.phase.target? = some session.setup := by
      generalize s.phase = phase at hphase hdigested ⊢
      cases hdigested with
      | hashed => exact ⟨hphase, rfl⟩
      | found => exact ⟨hphase, rfl⟩
    obtain ⟨rel, haimed, hdesc, hspec⟩ :=
      @completeReceived_spec env root s.disk session (trailer.get "sha256") actual size hagree h.sane hopen.1
    obtain ⟨hacting, -⟩ := @after_of s _ _ (fun _ => .idle) _ _ hspec
    have hover := s.after_idle (env.completeReceived session (trailer.get "sha256") size actual)
    exact ⟨⟨hacting.sane, by rw [after_plan]; exact h.plan, hover.2 env root _⟩, .inr ⟨session.setup, rel,
      ⟨trailer, rfl⟩, haimed, hopen.2, hacting, .inr (hacting.descends hdesc), hover.1⟩⟩
  | done hidle hall => exact ⟨⟨h.sane, h.plan, trivial⟩, .inl ⟨.refl h.sane, .inr (.inr rfl)⟩⟩
  | stay hquiet => exact ⟨h, .inl ⟨.refl h.sane, .inr (.inr rfl)⟩⟩
  | fail => exact ⟨⟨h.sane, h.plan, trivial⟩, .inl ⟨.refl h.sane, .inr (.inr rfl)⟩⟩

/-- What a step does with the plan, and which entry it goes on with. -/
inductive Intake.Turn (env : ReceiveEnv) (s : Intake) (f : Option Frame) (s' : Intake) : Prop
  | manifest {entries : List TransferManifestEntry} {plan : ReceivePlan} (hearly : s.sawFileHeader = false)
      (hearly' : s'.sawFileHeader = false) (hmade : PlanMade env s.disk.tree entries plan)
      (hplan : s'.plan = some plan) (hphase : s'.phase = s.phase) (htree : s'.disk.tree = s.disk.tree)
  | header {header : Message} (hframe : f = some (.fileHeader header)) (hidle : s.phase = .idle)
      (hrecord : recordReceivePlanHeader s.plan (header.get "path") = .ok s'.plan) (hsaw : s'.sawFileHeader = true)
      (hentry : ∀ setup, s'.phase.setup? = some setup → setup.relative = header.get "path" ∧
        setup.planned = findReceivePlanEntry s'.plan setup.relative)
  | other (hplan : s'.plan = s.plan) (hover : s.phase.over = true → s'.phase.over = true)
      (hsaw : s'.phase.over = false → s'.sawFileHeader = s.sawFileHeader)
      (hearly : s.sawFileHeader = false → s'.disk = s.disk)
      (hentry : ∀ setup', s'.phase.setup? = some setup' → ∃ setup, s.phase.setup? = some setup ∧
        setup'.planned = setup.planned ∧ setup'.relative = setup.relative)

/-- **Whose turn it is.** -/
theorem Intake.Placed.turn (h : s.Placed env root) (hagree : Agrees env s.disk.tree root) (hsound : s.Sound env)
    (hs : Intake.Step env s f s') : s.Turn env f s' := by
  have hphase := h.phase
  have hbusy (hidle : s.phase ≠ .idle) (hover : s.phase.over = false) {P : Prop} (hsaw : s.sawFileHeader = false) : P := by
    rcases hsound.early hsaw with h' | h'
    · exact absurd h' hidle
    · cases hover.symm.trans h'
  cases hs with
  | @manifest text manifest plan d hlate honce hdecode hplan =>
    obtain ⟨⟨summary, hpre⟩, htree, -⟩ := preflightTransferManifest_ok hplan
    exact .manifest hlate hlate (preflight_made hpre) rfl rfl htree
  -- the one step that leads from a header to a place
  | @header header plan hidle hpath hrecord =>
    have hplan : PlanPlaced env plan := fun relative planned hfind =>
      h.plan relative planned ((find_of_recorded hrecord relative).symm.trans hfind)
    have hspec := @prepare_spec env root plan header s.disk hagree h.sane hplan
    obtain ⟨-, hnext⟩ := @after_of { s with plan := plan, sawFileHeader := true } _ _ Phase.await _ _ hspec
    refine .header rfl hidle (by rw [after_plan]; exact hrecord) (after_saw _ _) fun setup hsetup => ?_
    rcases hnext with ⟨p, ⟨⟨-, hfind, hrelative⟩, -⟩, heq⟩ | ⟨e, heq⟩
    · rw [heq] at hsetup
      obtain rfl := Option.some.inj hsetup
      rw [after_plan]
      exact ⟨hrelative, hfind⟩
    · rw [heq] at hsetup
      cases hsetup
  -- from here on the entry has its place, and every step keeps it
  | @ack p frame hwait =>
    rw [hwait] at hphase
    have hpending : (Phase.await p).Sound env s.disk.tree := hwait ▸ hsound.disk
    obtain ⟨-, hnext⟩ := after_of (settle_spec frame hagree h.sane hphase hpending)
    refine .other (after_plan _ _) (by rw [hwait]; simp [Phase.over]) (fun _ => after_saw _ _)
      (hbusy (by simp [hwait]) (by rw [hwait]; rfl)) fun setup' hsetup' => ?_
    rcases hnext with ⟨next, ⟨-, setup, hsetup, hsame⟩, heq⟩ | ⟨e, heq⟩
    · rw [heq] at hsetup'
      obtain rfl := Option.some.inj (hsetup.symm.trans hsetup')
      exact ⟨p.setup, by rw [hwait]; rfl, hsame⟩
    · rw [heq] at hsetup'
      cases hsetup'
  | @put f session out content content' next hpayload hquiet hnext =>
    refine .other rfl (by rw [hpayload]; simp [Phase.over]) (fun _ => rfl)
      (hbusy (by simp [hpayload]) (by rw [hpayload]; rfl)) fun setup' hsetup' => ?_
    refine ⟨session.setup, by rw [hpayload]; rfl, ?_⟩
    rcases hnext with rfl | rfl | ⟨e, rfl⟩
    · obtain rfl := Option.some.inj hsetup'
      exact ⟨rfl, rfl⟩
    · obtain rfl := Option.some.inj hsetup'
      exact ⟨rfl, rfl⟩
    · cases hsetup'
  | @marker setup marker trailer hmarker =>
    refine .other (after_plan _ _) (by rw [hmarker]; simp [Phase.over]) (fun _ => after_saw _ _)
      (hbusy (by simp [hmarker]) (by rw [hmarker]; rfl)) fun setup' hsetup' => ?_
    rw [(s.after_idle _).1] at hsetup'
    cases hsetup'
  | skipped hskipping =>
    refine .other rfl (by rw [hskipping]; simp [Phase.over]) (fun _ => rfl)
      (hbusy (by simp [hskipping]) (by rw [hskipping]; rfl)) fun setup' hsetup' => ?_
    cases hsetup'
  | @commit session trailer size actual hdigested =>
    have hopen : s.phase ≠ .idle ∧ s.phase.over = false := by
      generalize s.phase = phase at hdigested ⊢
      cases hdigested <;> exact ⟨by simp, rfl⟩
    refine .other (after_plan _ _) (by rw [hopen.2]; simp) (fun _ => after_saw _ _) (hbusy hopen.1 hopen.2)
      fun setup' hsetup' => ?_
    rw [(s.after_idle _).1] at hsetup'
    cases hsetup'
  | done hidle hall => exact .other rfl (fun _ => rfl) (fun _ => rfl) (fun _ => rfl) fun _ hsetup => by cases hsetup
  | stay hquiet => exact .other rfl id (fun _ => rfl) (fun _ => rfl) fun setup hsetup => ⟨setup, hsetup, rfl, rfl⟩
  | fail =>
    exact .other rfl (fun _ => rfl) (fun hover => by cases hover) (fun _ => rfl) fun _ hsetup => by cases hsetup

end Step

end Kiko.Transfer
