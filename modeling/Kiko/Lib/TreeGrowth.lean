import Kiko.Lib.FileTree

/-!
# Trees that grow

A tree in which directories and links stay where they are leads every path where it led before
(`walk_keeps`): what is added, or written into files, can only make more paths lead somewhere.
Down names that are directories or nothing a path goes straight (`Straight`), so that a walk
and `create_directories` along it end where its text says.

`Sane` is what any file system sees to: whatever stands, stands in a directory, and no link is
empty. In a sane tree `create_directories` makes nothing on a path that can be walked
(`mkdirs_of_walk`).
-/

set_option autoImplicit false

namespace FileTree

open Lexical

variable {β : Type} {t t' : Tree β} {here place : Place} {parts : List String}

/-- What stands, stands in a directory, and a link has a target. -/
structure Sane (t : Tree β) : Prop where
  rooted : ∀ {p : Place} {part : String}, t (p ++ [part]) ≠ none → look t p = some .dir
  target_ne : ∀ {p : Place} {target : String}, t p = some (.symlink target) → target ≠ ""

/-- Directories and links of the one tree stand in the other. -/
structure Keeps (t t' : Tree β) : Prop where
  dir : ∀ {p : Place}, t p = some .dir → t' p = some .dir
  link : ∀ {p : Place} {target : String}, t p = some (.symlink target) → t' p = some (.symlink target)

theorem Keeps.refl (t : Tree β) : Keeps t t := ⟨id, id⟩

theorem Keeps.trans {t'' : Tree β} (h : Keeps t t') (h' : Keeps t' t'') : Keeps t t'' :=
  ⟨fun hp => h'.dir (h.dir hp), fun hp => h'.link (h.link hp)⟩

/-! ## Walks -/

theorem walkWith_append (follow : Place → FsPath → Option Place) (as bs : List String) :
    walkWith t follow here (as ++ bs) =
      (walkWith t follow here as).bind fun there => walkWith t follow there bs := by
  induction as generalizing here with
  | nil => rfl
  | cons part rest ih =>
    rw [List.cons_append, walkWith, walkWith]
    by_cases hskip : isSkip part = true
    · rw [if_pos hskip, if_pos hskip, ih]
    by_cases hup : part = ".."
    · rw [if_neg hskip, if_neg hskip, if_pos hup, if_pos hup, ih]
    rw [if_neg hskip, if_neg hskip, if_neg hup, if_neg hup]
    cases t (here ++ [part]) with
    | none => rfl
    | some node =>
      cases node with
      | file content => rfl
      | dir => exact ih
      | symlink target =>
        simp only [Option.bind_assoc]
        exact Option.bind_congr fun there _ => ih

theorem walk_append (links : Nat) (as bs : List String) :
    walk t links here (as ++ bs) = (walk t links here as).bind fun there => walk t links there bs := by
  cases links <;> exact walkWith_append _ as bs

/-- One name further. -/
theorem walk_name {links : Nat} {part : String} (hname : FsPath.isName part = true) :
    walk t links here [part] = some place ↔
      t (here ++ [part]) = some .dir ∧ place = here ++ [part] ∨
        ∃ n target, links = n + 1 ∧ t (here ++ [part]) = some (.symlink target) ∧
          walk t n (origin here (FsPath.ofString target)) (FsPath.ofString target).parts = some place := by
  obtain ⟨hskip, hup⟩ := isSkip_of_isName hname
  cases links with
  | zero =>
    simp only [walk, walkWith, hskip, hup, Bool.false_eq_true, if_false]
    cases t (here ++ [part]) with
    | none => simp
    | some node => cases node <;> simp [eq_comm]
  | succ links =>
    simp only [walk, walkWith, hskip, hup, Bool.false_eq_true, if_false]
    cases t (here ++ [part]) with
    | none => simp
    | some node => cases node <;> simp [eq_comm]

theorem walkWith_keeps {follow follow' : Place → FsPath → Option Place} (h : Keeps t t')
    (hfollow : ∀ here target there, follow here target = some there → follow' here target = some there)
    (hwalk : walkWith t follow here parts = some place) : walkWith t' follow' here parts = some place := by
  induction parts generalizing here with
  | nil => exact hwalk
  | cons part rest ih =>
    rw [walkWith] at hwalk ⊢
    split_ifs at hwalk ⊢ with hskip hup
    · exact ih hwalk
    · exact ih hwalk
    · split at hwalk
      next hdir =>
        rw [h.dir hdir]
        exact ih hwalk
      next target hlink =>
        rw [h.link hlink]
        obtain ⟨there, hthere, hwalk⟩ := Option.bind_eq_some_iff.mp hwalk
        exact Option.bind_eq_some_iff.mpr ⟨there, hfollow _ _ _ hthere, ih hwalk⟩
      next => cases hwalk

/-- **Where a path leads, it leads in every tree that keeps directories and links.** -/
theorem walk_keeps {links links' : Nat} (h : Keeps t t') (hle : links ≤ links')
    (hwalk : walk t links here parts = some place) : walk t' links' here parts = some place := by
  induction links generalizing links' here parts place with
  | zero =>
    cases links' with
    | zero => exact walkWith_keeps h (fun _ _ _ hf => hf) hwalk
    | succ links' => exact walkWith_keeps h (fun _ _ _ hf => by cases hf) hwalk
  | succ links ih =>
    obtain ⟨links', rfl⟩ := Nat.exists_eq_add_of_le' (Nat.lt_of_lt_of_le (Nat.succ_pos links) hle)
    exact walkWith_keeps h (fun _ _ _ hf => ih (Nat.le_of_succ_le_succ hle) hf) hwalk

theorem resolve_keeps {p : FsPath} (h : Keeps t t') (hp : resolve t here p = some place) :
    resolve t' here p = some place := by
  unfold resolve at hp ⊢
  split_ifs at hp ⊢
  exact walk_keeps h (Nat.le_refl _) hp

/-- What a path names stays where it is. -/
theorem locate_keeps {p : FsPath} (h : Keeps t t') (hp : locate t here p = some place) :
    locate t' here p = some place := by
  unfold locate at hp ⊢
  split_ifs at hp ⊢
  · exact resolve_keeps h hp
  · obtain ⟨there, hthere, hp⟩ := Option.map_eq_some_iff.mp hp
    exact Option.map_eq_some_iff.mpr ⟨there, walk_keeps h (Nat.le_refl _) hthere, hp⟩

theorem isDir_iff {p : Place} : isDir t p = true ↔ look t p = some .dir := by
  unfold isDir
  split <;> simp_all

theorem Sane.dropLast (h : Sane t) {p : Place} (hp : look t p = some .dir) : look t p.dropLast = some .dir := by
  rcases List.eq_nil_or_concat p with rfl | ⟨init, last, rfl⟩
  · rfl
  · rw [List.concat_eq_append, List.dropLast_concat]
    refine @Sane.rooted _ _ h init last fun hnone => ?_
    rw [List.concat_eq_append, look, if_neg (by simp), hnone] at hp
    cases hp

theorem Sane.dir_of_walkWith (h : Sane t) {follow : Place → FsPath → Option Place}
    (hfollow : ∀ {here target there}, look t here = some .dir → follow here target = some there →
      look t there = some .dir)
    (hdir : look t here = some .dir) (hwalk : walkWith t follow here parts = some place) :
    look t place = some .dir := by
  induction parts generalizing here with
  | nil => exact Option.some.inj hwalk ▸ hdir
  | cons part rest ih =>
    rw [walkWith] at hwalk
    split_ifs at hwalk with hskip hup
    · exact ih hdir hwalk
    · exact ih (h.dropLast hdir) hwalk
    · split at hwalk
      next hd => exact ih (by rw [look, if_neg (by simp), hd]) hwalk
      next target _ =>
        obtain ⟨there, hthere, hwalk⟩ := Option.bind_eq_some_iff.mp hwalk
        exact ih (hfollow hdir hthere) hwalk
      next => cases hwalk

theorem look_origin {p : FsPath} (hdir : look t here = some .dir) :
    look t (origin here p) = some .dir := by
  unfold origin
  split_ifs
  · rfl
  · exact hdir

/-- A walk from a directory ends in one. -/
theorem Sane.dir_of_walk (h : Sane t) {links : Nat} (hdir : look t here = some .dir)
    (hwalk : walk t links here parts = some place) : look t place = some .dir := by
  induction links generalizing here parts place with
  | zero => exact h.dir_of_walkWith (fun _ hf => by cases hf) hdir hwalk
  | succ links ih => exact h.dir_of_walkWith (fun hd hf => ih (look_origin hd) hf) hdir hwalk

/-! ## Links followed to the end -/

theorem real_of_ne_link {n : Nat} {node : Node β} (h : look t place = some node)
    (hlink : ∀ target, node ≠ .symlink target) : real t n place = some place := by
  rw [real.eq_def]
  cases node with
  | symlink target => exact absurd rfl (hlink target)
  | file content => simp [h]
  | dir => simp [h]

theorem ofString_ne {text : String} (h : text ≠ "") : (FsPath.ofString text).isEmpty = false := by
  by_contra hempty
  simp only [FsPath.isEmpty, FsPath.ofString, Bool.not_eq_false, Bool.and_eq_true, Bool.not_eq_true',
    decide_eq_false_iff_not, List.isEmpty_iff] at hempty
  obtain ⟨habs, hparts⟩ := hempty
  cases htext : text.toList with
  | nil => exact h (String.toList_eq_nil_iff.mp htext)
  | cons c rest =>
    -- the first piece starts with a character that is no slash
    have hc : c ≠ '/' := by simpa [htext] using habs
    obtain ⟨piece, pieces, hsplit⟩ := List.exists_cons_of_ne_nil (List.splitOn_ne_nil '/' rest)
    have hcons : (c :: rest).splitOn '/' = (c :: piece) :: pieces := by
      rw [List.splitOn_cons_eq_if_modifyHead, if_neg (by simp [hc]), hsplit]
      rfl
    rw [htext, hcons, List.map_cons, List.filter_cons_of_pos (by simp)] at hparts
    split_ifs at hparts
    simp at hparts

/-- The last part of a path that ends in a name. -/
theorem parts_of_named {p : FsPath} (h : endsOpen p = false) :
    ∃ init last, p.parts = init ++ [last] ∧ FsPath.isName last = true ∧ p.filename = last := by
  unfold endsOpen at h
  rcases List.eq_nil_or_concat p.parts with hnil | ⟨init, last, hparts⟩
  · simp [hnil] at h
  · rw [List.concat_eq_append] at hparts
    rw [hparts, List.getLast?_concat] at h
    refine ⟨init, last, hparts, ?_, by simp [FsPath.filename, hparts]⟩
    simp only [isSkip, Bool.or_eq_false_iff, decide_eq_false_iff_not] at h
    simp [FsPath.isName, h]

theorem locate_of_named {p : FsPath} (h : endsOpen p = false) :
    locate t here p = (walk t maxLinks (origin here p) p.parts.dropLast).map (· ++ [p.filename]) :=
  if_neg (by simp [h])

/-- A path that can be walked names an entry that leads to the same place. -/
theorem Sane.real_of_walk (h : Sane t) {links n : Nat} {p : FsPath} (hne : p.isEmpty = false)
    (hdir : look t here = some .dir) (hle : links ≤ n) (hmax : links ≤ maxLinks)
    (hwalk : walk t links (origin here p) p.parts = some place) :
    (locate t here p).bind (real t n) = some place := by
  induction links using Nat.strong_induction_on generalizing here p n with
  | _ links ih =>
    have hplace := h.dir_of_walk (look_origin hdir) hwalk
    by_cases hopen : endsOpen p = true
    · rw [locate, if_pos hopen, resolve, if_neg (by simp [hne]), walk_keeps (.refl t) hmax hwalk]
      exact real_of_ne_link hplace (by simp)
    · have hnamed : endsOpen p = false := by simpa using hopen
      obtain ⟨init, last, hparts, hname, hfile⟩ := parts_of_named hnamed
      rw [locate_of_named hnamed, hparts, List.dropLast_concat, hfile]
      rw [hparts, walk_append] at hwalk
      obtain ⟨above, habove, hlast⟩ := Option.bind_eq_some_iff.mp hwalk
      rw [walk_keeps (.refl t) hmax habove, Option.map_some, Option.bind_some]
      have habovedir := h.dir_of_walk (look_origin hdir) habove
      rcases (walk_name hname).mp hlast with ⟨hd, rfl⟩ | ⟨m, target, rfl, hlink, htarget⟩
      · exact real_of_ne_link hplace (by simp)
      · -- the entry is a link, and one link less remains
        obtain ⟨n, rfl⟩ := Nat.exists_eq_add_of_le' (Nat.lt_of_lt_of_le (Nat.succ_pos m) hle)
        have hlook : look t (above ++ [last]) = some (.symlink target) := by
          rw [look, if_neg (by simp), hlink]
        rw [real.eq_def]
        simp only [hlook, List.dropLast_concat]
        exact ih m (Nat.lt_succ_self m) (ofString_ne (h.target_ne hlink)) habovedir
          (Nat.le_of_succ_le_succ hle) (Nat.le_of_succ_le hmax) htarget

/-! ## Straight down

`Descends` and `Straight` are what a check of each directory on a path establishes, all the
way or up to the first that is not there. -/

/-- Down these names there are directories, up to the first where nothing stands. -/
def Straight (t : Tree β) : Place → List String → Prop
  | _, [] => True
  | here, part :: rest =>
    t (here ++ [part]) = none ∨ t (here ++ [part]) = some .dir ∧ Straight t (here ++ [part]) rest

/-- Down these names there are directories. -/
def Descends (t : Tree β) (here : Place) (parts : List String) : Prop :=
  ∀ q, q <+: parts → q ≠ [] → t (here ++ q) = some .dir

theorem Descends.nil : Descends t here [] := fun _ hq hne => absurd (List.prefix_nil.mp hq) hne

theorem descends_cons {part : String} {rest : List String} :
    Descends t here (part :: rest) ↔
      t (here ++ [part]) = some .dir ∧ Descends t (here ++ [part]) rest := by
  constructor
  · intro h
    refine ⟨h [part] (by simp) (by simp), fun q hq hne => ?_⟩
    have := h (part :: q) (List.cons_prefix_cons.mpr ⟨rfl, hq⟩) (by simp)
    simpa using this
  · rintro ⟨hdir, hrest⟩ q hq hne
    rcases List.prefix_cons_iff.mp hq with rfl | ⟨q', rfl, hq'⟩
    · exact absurd rfl hne
    · by_cases hq'' : q' = []
      · rw [hq'']
        exact hdir
      · have := hrest q' hq' hq''
        simpa using this

theorem Descends.keeps (h : Descends t here parts) (hk : Keeps t t') : Descends t' here parts :=
  fun q hq hne => hk.dir (h q hq hne)

theorem Descends.look (h : Descends t here parts) (hdir : look t here = some .dir) :
    look t (here ++ parts) = some .dir := by
  by_cases hnil : parts = []
  · simpa [hnil] using hdir
  · rw [FileTree.look, if_neg (by simp [hnil])]
    exact h parts List.prefix_rfl hnil

/-- The parts that say "here" lead nowhere. -/
theorem walk_skip {links : Nat} {part : String} (h : isSkip part = true) (rest : List String) :
    walk t links here (part :: rest) = walk t links here rest := by
  cases links <;> simp [walk, walkWith, h]

theorem walk_up (links : Nat) (rest : List String) :
    walk t links here (".." :: rest) = walk t links here.dropLast rest := by
  have hskip : isSkip ".." = false := by decide
  cases links <;> simp [walk, walkWith, hskip]

theorem names_cons (part : String) (rest : List String) : FsPath.names (part :: rest) =
    if isSkip part then FsPath.names rest else part :: FsPath.names rest := by
  by_cases hempty : part = ""
  · simp [FsPath.names, isSkip, hempty]
  · by_cases hdot : part = "." <;> simp [FsPath.names, isSkip, hempty, hdot]

theorem walk_names (links : Nat) (parts : List String) :
    walk t links here (FsPath.names parts) = walk t links here parts := by
  induction parts generalizing here with
  | nil => rfl
  | cons part rest ih =>
    rw [names_cons]
    by_cases hskip : isSkip part = true
    · rw [if_pos hskip, walk_skip hskip, ih]
    · rw [if_neg hskip]
      change walk t links here ([part] ++ FsPath.names rest) = walk t links here ([part] ++ rest)
      rw [walk_append, walk_append]
      exact Option.bind_congr fun there _ => ih

theorem Descends.walk {links : Nat} (h : Descends t here parts)
    (hn : ∀ part ∈ parts, FsPath.isName part) : walk t links here parts = some (here ++ parts) := by
  induction parts generalizing here with
  | nil => cases links <;> simp [FileTree.walk, walkWith]
  | cons part rest ih =>
    obtain ⟨hdir, hrest⟩ := descends_cons.mp h
    have hone : FileTree.walk t links here [part] = some (here ++ [part]) :=
      (walk_name (hn part (by simp))).mpr (.inl ⟨hdir, rfl⟩)
    rw [← List.singleton_append, walk_append, hone, Option.bind_some,
      ih hrest fun p hp => hn p (List.mem_cons_of_mem _ hp)]
    simp

/-- A walk down a straight way has met directories only. -/
theorem Straight.walk {links : Nat} (h : Straight t here parts)
    (hn : ∀ part ∈ parts, FsPath.isName part) (hwalk : walk t links here parts = some place) :
    place = here ++ parts ∧ Descends t here parts := by
  induction parts generalizing here with
  | nil =>
    refine ⟨?_, .nil⟩
    cases links <;> simpa [FileTree.walk, walkWith, eq_comm] using hwalk
  | cons part rest ih =>
    rw [← List.singleton_append, walk_append] at hwalk
    obtain ⟨there, hone, hwalk⟩ := Option.bind_eq_some_iff.mp hwalk
    have hname := walk_name (hn part (by simp)) |>.mp hone
    rcases h with hnone | ⟨hdir, hrest⟩
    · rcases hname with ⟨hd, -⟩ | ⟨_, _, -, hlink, -⟩
      · rw [hnone] at hd
        cases hd
      · rw [hnone] at hlink
        cases hlink
    · rcases hname with ⟨-, rfl⟩ | ⟨_, _, -, hlink, -⟩
      · obtain ⟨rfl, hdesc⟩ := ih hrest (fun p hp => hn p (List.mem_cons_of_mem _ hp)) hwalk
        exact ⟨by simp, descends_cons.mpr ⟨hdir, hdesc⟩⟩
      · rw [hdir] at hlink
        cases hlink

/-- Nothing stands below a place where nothing stands. -/
theorem Sane.none_below (h : Sane t) (hnone : t here = none) (hne : here ≠ []) (part : String) :
    t (here ++ [part]) = none := by
  by_contra hsome
  have hdir := h.rooted hsome
  rw [FileTree.look, if_neg hne, hnone] at hdir
  cases hdir

theorem Sane.none_beyond (h : Sane t) (hnone : t here = none) (hne : here ≠ []) (parts : List String) :
    t (here ++ parts) = none := by
  induction parts using List.reverseRecOn with
  | nil => rwa [List.append_nil]
  | append_singleton init last ih =>
    rw [← List.append_assoc]
    exact h.none_below ih (by simp [hne]) last

/-- A straight way to something goes down directories. -/
theorem Sane.descends_of_straight (h : Sane t) (hs : Straight t here parts) (hsome : t (here ++ parts) ≠ none) :
    Descends t here parts := by
  induction parts generalizing here with
  | nil => exact .nil
  | cons part rest ih =>
    have hassoc : here ++ part :: rest = (here ++ [part]) ++ rest := by simp
    rw [hassoc] at hsome
    rcases hs with hnone | ⟨hdir, hrest⟩
    · exact absurd (h.none_beyond hnone (by simp) rest) hsome
    · exact descends_cons.mpr ⟨hdir, ih hrest hsome⟩

/-! ## Directories are made

What `create_directories` makes was not there before, so everything that could be walked still
can. -/

/-- Directories have been made below `root`, and nothing else has changed. -/
def Builds (root : Place) (t t' : Tree β) : Prop :=
  ∀ p, t' p = t p ∨ t p = none ∧ t' p = some .dir ∧ root <+: p

theorem Builds.refl (root : Place) (t : Tree β) : Builds root t t := fun _ => .inl rfl

theorem Builds.trans {root : Place} {t'' : Tree β} (h : Builds root t t') (h' : Builds root t' t'') :
    Builds root t t'' := by
  intro p
  rcases h' p with heq' | ⟨hnone, hdir, hroot⟩
  · rcases h p with heq | ⟨hnone, hdir, hroot⟩
    · exact .inl (heq'.trans heq)
    · exact .inr ⟨hnone, heq'.trans hdir, hroot⟩
  · rcases h p with heq | ⟨-, hdir', -⟩
    · exact .inr ⟨heq.symm.trans hnone, hdir, hroot⟩
    · rw [hnone] at hdir'
      cases hdir'

/-- What stood stands. -/
theorem Builds.stays {root p : Place} {node : Node β} (h : Builds root t t') (hp : t p = some node) :
    t' p = some node := by
  rcases h p with heq | ⟨hnone, -, -⟩
  · exact heq.trans hp
  · rw [hp] at hnone
    cases hnone

theorem Builds.keeps {root : Place} (h : Builds root t t') : Keeps t t' := ⟨h.stays, h.stays⟩

/-- An entry is put into a directory, where no directory stands, or a directory stands again. -/
theorem Sane.set (h : Sane t) {p : Place} {part : String} {node : Node β} (hp : look t p = some .dir)
    (hdir : t (p ++ [part]) = some .dir → node = .dir) (hlink : ∀ target, node = .symlink target → target ≠ "") :
    Sane (t.set (p ++ [part]) node) := by
  have hself : p ++ [part] ≠ p := by simp
  have hlook {q : Place} (hq : FileTree.look t q = some .dir) :
      FileTree.look (t.set (p ++ [part]) node) q = some .dir := by
    by_cases hnil : q = []
    · rw [hnil]
      rfl
    · rw [FileTree.look, if_neg hnil] at hq ⊢
      by_cases heq : q = p ++ [part]
      · rw [heq] at hq ⊢
        rw [Tree.set_self, hdir hq]
      · rw [Tree.set_of_ne _ _ heq, hq]
  refine ⟨fun {q part'} hq => hlook ?_, fun {q target} hq => ?_⟩
  · by_cases heq : q ++ [part'] = p ++ [part]
    · exact (List.append_inj' heq rfl).1 ▸ hp
    · rw [Tree.set_of_ne _ _ heq] at hq
      exact h.rooted hq
  · by_cases heq : q = p ++ [part]
    · rw [heq, Tree.set_self] at hq
      exact hlink target (Option.some.inj hq)
    · rw [Tree.set_of_ne _ _ heq] at hq
      exact h.target_ne hq

/-- What is no directory is removed. -/
theorem Sane.remove (h : Sane t) {p : Place} (hp : t p ≠ some .dir) : Sane (t.remove p) := by
  refine ⟨fun {q part} hq => ?_, fun {q target} hq => ?_⟩
  · by_cases heq : q ++ [part] = p
    · rw [heq, Tree.remove_self] at hq
      exact absurd rfl hq
    · rw [Tree.remove_of_ne _ heq] at hq
      have hdir := h.rooted hq
      by_cases hnil : q = []
      · rw [hnil]
        rfl
      · rw [look, if_neg hnil] at hdir ⊢
        have hne : q ≠ p := by
          rintro rfl
          exact hp hdir
        rw [Tree.remove_of_ne _ hne, hdir]
  · by_cases heq : q = p
    · rw [heq, Tree.remove_self] at hq
      cases hq
    · rw [Tree.remove_of_ne _ heq] at hq
      exact h.target_ne hq

/-- Where no directory and no link stands, anything may be put. -/
theorem Leaf.keeps_set {p : Place} (h : Leaf t p) (node : Node β) : Keeps t (t.set p node) := by
  have hne {q : Place} {n : Node β} (hq : t q = some n) (hn : ∀ c, n ≠ .file c) : q ≠ p := by
    rintro rfl
    rcases h with hnone | ⟨c, hfile⟩
    · rw [hnone] at hq
      cases hq
    · exact hn c (Option.some.inj (hq.symm.trans hfile))
  refine ⟨fun hq => ?_, fun hq => ?_⟩
  · rw [Tree.set_of_ne _ _ (hne hq (by simp)), hq]
  · rw [Tree.set_of_ne _ _ (hne hq (by simp)), hq]

theorem Leaf.keeps_remove {p : Place} (h : Leaf t p) : Keeps t (t.remove p) := by
  have hne {q : Place} {n : Node β} (hq : t q = some n) (hn : ∀ c, n ≠ .file c) : q ≠ p := by
    rintro rfl
    rcases h with hnone | ⟨c, hfile⟩
    · rw [hnone] at hq
      cases hq
    · exact hn c (Option.some.inj (hq.symm.trans hfile))
  refine ⟨fun hq => ?_, fun hq => ?_⟩
  · rw [Tree.remove_of_ne _ (hne hq (by simp)), hq]
  · rw [Tree.remove_of_ne _ (hne hq (by simp)), hq]

/-- Above whatever stands there are directories. -/
theorem Sane.descends (h : Sane t) {init : List String} {last : String}
    (hsome : t (here ++ (init ++ [last])) ≠ none) : Descends t here init := by
  induction init using List.reverseRecOn generalizing last with
  | nil => exact .nil
  | append_singleton init part ih =>
    have hdir : look t (here ++ (init ++ [part])) = some .dir :=
      h.rooted (by simpa using hsome)
    rw [look, if_neg (by simp)] at hdir
    intro q hq hne
    rcases List.prefix_concat_iff.mp hq with rfl | hq'
    · exact hdir
    · exact ih (by rw [hdir]; simp) q hq' hne

theorem mkdirs_append (made : List Place) (as bs : List String) :
    mkdirs t made here (as ++ bs) =
      (mkdirs t made here as).bind fun m => mkdirs m.tree m.made m.place bs := by
  induction as generalizing t made here with
  | nil => rfl
  | cons part rest ih =>
    rw [List.cons_append, mkdirs, mkdirs]
    by_cases hskip : isSkip part = true
    · rw [if_pos hskip, if_pos hskip, ih]
    by_cases hup : part = ".."
    · rw [if_neg hskip, if_neg hskip, if_pos hup, if_pos hup, ih]
    rw [if_neg hskip, if_neg hskip, if_neg hup, if_neg hup]
    cases t (here ++ [part]) with
    | none => exact ih _
    | some node =>
      cases node with
      | file content => rfl
      | dir => exact ih _
      | symlink target =>
        cases hreal : real t maxLinks (here ++ [part]) with
        | none => rfl
        | some there =>
          by_cases hd : isDir t there = true
          · simp only [hd, if_true]
            exact ih _
          · simp only [if_neg hd]
            rfl

/-- Whatever stands in the way, only directories are made, where nothing was. -/
theorem mkdirs_builds {made : List Place} {parts : List String} {m : Made β} (h : mkdirs t made here parts = some m) :
    Builds [] t m.tree := by
  induction parts generalizing t made here with
  | nil =>
    obtain rfl := Option.some.inj h
    exact .refl [] t
  | cons part rest ih =>
    rw [mkdirs] at h
    split_ifs at h
    · exact ih h
    · exact ih h
    · cases hnode : t (here ++ [part]) with
      | none =>
        simp only [hnode] at h
        refine Builds.trans (fun p => ?_) (ih h)
        by_cases hp : p = here ++ [part]
        · rw [hp]
          exact .inr ⟨hnode, Tree.set_self .., List.nil_prefix⟩
        · exact .inl (Tree.set_of_ne _ _ hp)
      | some node =>
        cases node with
        | file content => simp [hnode] at h
        | dir =>
          simp only [hnode] at h
          exact ih h
        | symlink target =>
          cases hreal : real t maxLinks (here ++ [part]) with
          | none => simp [hnode, hreal] at h
          | some there =>
            simp only [hnode, hreal] at h
            split_ifs at h
            exact ih h

theorem mkdirs_names (made : List Place) (parts : List String) :
    mkdirs t made here (FsPath.names parts) = mkdirs t made here parts := by
  induction parts generalizing t made here with
  | nil => rfl
  | cons part rest ih =>
    rw [names_cons]
    by_cases hskip : isSkip part = true
    · rw [if_pos hskip, ih, mkdirs, if_pos hskip]
    · rw [if_neg hskip, ← List.singleton_append, mkdirs_append, ← @List.singleton_append _ part rest,
        mkdirs_append]
      exact Option.bind_congr fun m _ => ih m.made

theorem isName_iff {part : String} : FsPath.isName part = true ↔ ¬ isSkip part = true ∧ part ≠ ".." := by
  simp only [FsPath.isName, isSkip, Bool.and_eq_true, Bool.or_eq_true, decide_eq_true_eq]
  tauto

/-- **On a path that can be walked there is nothing to make.** -/
theorem Sane.mkdirs_of_walk (h : Sane t) {links : Nat} (hdir : look t here = some .dir)
    (hle : links ≤ maxLinks) (hwalk : walk t links here parts = some place) (made : List Place) :
    mkdirs t made here parts = some { tree := t, place := place, made := made } := by
  induction parts generalizing here with
  | nil =>
    obtain rfl : here = place := by
      cases links <;> simpa [FileTree.walk, walkWith] using hwalk
    rfl
  | cons part rest ih =>
    rw [mkdirs]
    by_cases hskip : isSkip part = true
    · rw [if_pos hskip]
      exact ih hdir (walk_skip hskip rest ▸ hwalk)
    by_cases hup : part = ".."
    · rw [if_neg hskip, if_pos hup]
      subst hup
      exact ih (h.dropLast hdir) (walk_up links rest ▸ hwalk)
    rw [if_neg hskip, if_neg hup]
    rw [← List.singleton_append, walk_append] at hwalk
    obtain ⟨there, hone, hwalk⟩ := Option.bind_eq_some_iff.mp hwalk
    have hthere := h.dir_of_walk hdir hone
    rcases (walk_name (isName_iff.mpr ⟨hskip, hup⟩)).mp hone with ⟨hd, rfl⟩ | ⟨n, target, rfl, hlink, htarget⟩
    · rw [hd]
      exact ih hthere hwalk
    · have hreal : real t maxLinks (here ++ [part]) = some there := by
        have hlook : look t (here ++ [part]) = some (.symlink target) := by
          rw [look, if_neg (by simp), hlink]
        rw [real.eq_def]
        simp only [hlook, maxLinks, List.dropLast_concat]
        exact h.real_of_walk (ofString_ne (h.target_ne hlink)) hdir (Nat.le_of_succ_le_succ hle)
          (Nat.le_of_succ_le hle) htarget
      simp only [hlink, hreal, isDir_iff.mpr hthere, if_true]
      exact ih hthere hwalk

/-- **Down a straight way directories are made where there are none.** -/
theorem Sane.mkdirs_straight (h : Sane t) (hdir : look t here = some .dir) (hs : Straight t here parts)
    (hn : ∀ part ∈ parts, FsPath.isName part) (made : List Place) :
    ∃ m, mkdirs t made here parts = some m ∧ m.place = here ++ parts ∧ Builds here t m.tree ∧
      Sane m.tree ∧ Descends m.tree here parts ∧
      ∃ new, m.made = made ++ new ∧ ∀ p ∈ new, here <+: p ∧ m.tree p = some .dir := by
  induction parts generalizing t here made with
  | nil => exact ⟨_, rfl, by simp, .refl here t, h, .nil, [], by simp, by simp⟩
  | cons part rest ih =>
    obtain ⟨hskip, hup⟩ := isSkip_of_isName (hn part (by simp))
    have hrest : ∀ p ∈ rest, FsPath.isName p := fun p hp => hn p (List.mem_cons_of_mem _ hp)
    rw [mkdirs, if_neg (by simp [hskip]), if_neg hup]
    rcases hs with hnone | ⟨hd, hs⟩
    · -- from here on nothing stands
      have hsane : Sane (t.set (here ++ [part]) .dir) := h.set hdir (fun _ => rfl) (by simp)
      have hself : (t.set (here ++ [part]) .dir) (here ++ [part]) = some .dir := Tree.set_self ..
      have hstraight : Straight (t.set (here ++ [part]) .dir) (here ++ [part]) rest := by
        cases rest with
        | nil => trivial
        | cons next rest =>
          refine .inl ?_
          rw [Tree.set_of_ne _ _ (by simp)]
          exact h.none_below hnone (by simp) next
      have hbuilds : Builds here t (t.set (here ++ [part]) .dir) := by
        intro p
        by_cases hp : p = here ++ [part]
        · exact .inr ⟨hp ▸ hnone, hp ▸ hself, hp ▸ List.prefix_append ..⟩
        · exact .inl (Tree.set_of_ne _ _ hp)
      obtain ⟨m, hm, hplace, hbuilds', hsane', hdesc, new, hmade, hnew⟩ :=
        ih hsane (by rw [look, if_neg (by simp), hself]) hstraight hrest (made ++ [here ++ [part]])
      refine ⟨m, by rw [hnone]; exact hm, by simpa using hplace, hbuilds.trans fun p => ?_, hsane',
        descends_cons.mpr ⟨hbuilds'.stays hself, hdesc⟩, (here ++ [part]) :: new, by simpa using hmade, ?_⟩
      · exact (hbuilds' p).imp_right fun hp => ⟨hp.1, hp.2.1, (List.prefix_append ..).trans hp.2.2⟩
      · rintro p (_ | ⟨_, hp⟩)
        · exact ⟨List.prefix_append .., hbuilds'.stays hself⟩
        · exact ⟨(List.prefix_append ..).trans (hnew p hp).1, (hnew p hp).2⟩
    · obtain ⟨m, hm, hplace, hbuilds', hsane', hdesc, new, hmade, hnew⟩ :=
        ih h (by rw [look, if_neg (by simp), hd]) hs hrest made
      refine ⟨m, by rw [hd]; exact hm, by simpa using hplace, fun p => ?_, hsane',
        descends_cons.mpr ⟨hbuilds'.stays hd, hdesc⟩, new, hmade, fun p hp =>
          ⟨(List.prefix_append ..).trans (hnew p hp).1, (hnew p hp).2⟩⟩
      exact (hbuilds' p).imp_right fun hp => ⟨hp.1, hp.2.1, (List.prefix_append ..).trans hp.2.2⟩

/-! ## A file is rewritten -/

section Rewritten

variable {β : Type} {t : Tree β} {place here : Place} {content content' : β}

theorem look_set_self (hne : place ≠ []) : look (t.set place (.file content')) place = some (.file content') := by
  rw [look, if_neg hne, Tree.set_self]

theorem look_set_of_ne {q : Place} (h : q ≠ place) (node : Node β) : look (t.set place node) q = look t q := by
  unfold look
  rw [Tree.set_of_ne _ _ h]

/-- What stands anywhere is what stood there, but for what the file says. -/
theorem look_rewritten (content' : β) (h : t place = some (.file content)) (q : Place) :
    look (t.set place (.file content')) q = look t q ∨
      look t q = some (.file content) ∧ look (t.set place (.file content')) q = some (.file content') := by
  by_cases hq : q = place
  · subst hq
    by_cases hnil : q = []
    · subst hnil
      exact .inl rfl
    · exact .inr ⟨by rw [look, if_neg hnil, h], look_set_self hnil⟩
  · exact .inl (look_set_of_ne hq _)

theorem isDir_rewritten (h : t place = some (.file content)) (q : Place) :
    isDir (t.set place (.file content')) q = isDir t q := by
  unfold isDir
  rcases look_rewritten content' h q with hlook | ⟨hlook, hlook'⟩
  · rw [hlook]
  · rw [hlook, hlook']

theorem real_rewritten (h : t place = some (.file content)) (links : Nat) (q : Place) :
    real (t.set place (.file content')) links q = real t links q := by
  induction links generalizing q with
  | zero =>
    rw [real.eq_def, real.eq_def]
    dsimp only
    rcases look_rewritten content' h q with hlook | ⟨hlook, hlook'⟩
    · rw [hlook]
    · rw [hlook, hlook']
  | succ links ih =>
    rw [real.eq_def, real.eq_def]
    dsimp only
    rcases look_rewritten content' h q with hlook | ⟨hlook, hlook'⟩
    · rw [hlook]
      cases look t q with
      | none => rfl
      | some node =>
        cases node with
        | file c => rfl
        | dir => rfl
        | symlink target =>
          dsimp only
          rw [locate_set_file (.inr ⟨content, h⟩)]
          exact Option.bind_congr fun there _ => ih there
    · rw [hlook, hlook']

theorem weaklyCanonical_rewritten (h : t place = some (.file content)) (parts : List String) :
    weaklyCanonical (t.set place (.file content')) here parts = weaklyCanonical t here parts := by
  induction parts generalizing here with
  | nil => rfl
  | cons part rest ih =>
    rw [weaklyCanonical, weaklyCanonical, isDir_rewritten h, real_rewritten h]
    split_ifs
    · exact ih
    · cases real t maxLinks (here ++ [part]) with
      | none => rfl
      | some there => exact ih
    · rfl

/-- A path names what it named, but for what the file says. -/
theorem lstat_rewritten (content' : β) (h : t place = some (.file content)) (p : FsPath) :
    lstat (t.set place (.file content')) here p = lstat t here p ∨
      lstat t here p = some (.file content) ∧ lstat (t.set place (.file content')) here p = some (.file content') := by
  unfold lstat
  rw [locate_set_file (.inr ⟨content, h⟩)]
  cases locate t here p with
  | none => exact .inl rfl
  | some q => exact look_rewritten content' h q

end Rewritten

end FileTree
