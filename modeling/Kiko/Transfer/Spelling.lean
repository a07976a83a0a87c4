import Kiko.Transfer.Agreement

/-!
# Spellings of the output directory

`validate_receive_target_parent` compares the parts of two normal forms, and `safe_join` has
put the second together from the first one's text. A directory whose spelling ends in a name
has the same normal form in every spelling, the place it stands at; one that ends in a slash,
in `.` or in `..` has one part more, the empty one behind the slash, which no target has at
that position. `root_of_spelling` and `target_of_spelling` say what the check compares; what
it then looks up in the tree is the same for all spellings.

A receiver is told its output directory by its user, who may write `out`, `./out`, `out/` or
`.`. All of them lead to one place and should be as good as each other. The comparison is of
lists, so the question is what a spelling becomes as a list; the answer depends on its last
component only, and the statement is an equivalence for that reason.
-/

set_option autoImplicit false

namespace Kiko.Transfer

open Lexical FileTree FsPath

/-- The path is a way to say this place. -/
def Spells (cwd : Place) (dir : FsPath) (place : Place) : Prop :=
  ∃ q, dir.absolute cwd = some q ∧ q.normalNames = place

/-- The directory exists, and no link is on the way to it. -/
def LinkFree (t : Tree) (place : Place) : Prop := ∀ q, q <+: place → q ≠ [] → t q = some .dir

/-- The names above the last part of a relative path. -/
def parentNames (relative : String) : List String := names (ofString relative).parts.dropLast

namespace ReceiveEnv

/-- The same receiver, told to write into `dir`. -/
def into (env : ReceiveEnv) (dir : FsPath) : ReceiveEnv := { env with outputDir := dir }

/-- What the receiver makes of a name: `safe_join`, then the check of the target's parent. -/
def verdict (env : ReceiveEnv) (t : Tree) (relative : String) : Except KikoError Unit := do
  let target ← safeJoin env.outputDir relative
  env.validateReceiveTargetParent t target relative

/-- The check passes every name that `safe_join` takes and above whose target nothing but
    directories stands. -/
def Complete (env : ReceiveEnv) (t : Tree) (place : Place) : Prop :=
  ∀ relative target, safeJoin env.outputDir relative = .ok target →
    Plain t place (parentNames relative) →
      env.validateReceiveTargetParent t target relative = .ok ()

end ReceiveEnv

/-! ## The two normal forms

Joining and normalizing do not commute with an empty part at the end of the first list: this
is the whole matter, and the lemmas compute both sides. -/

theorem absolute_spec {cwd : Place} {dir q : FsPath} (h : dir.absolute cwd = some q) :
    dir.isEmpty = false ∧ q.isAbsolute = true ∧
      q.parts = (if dir.isAbsolute then [] else cwd) ++ dir.parts := by
  rw [FsPath.absolute] at h
  split_ifs at h with hempty habs
  · obtain rfl := Option.some.inj h
    exact ⟨by simpa using hempty, habs, by simp [habs]⟩
  · obtain rfl := Option.some.inj h
    exact ⟨by simpa using hempty, rfl, by simp [habs]⟩

/-- Making a path absolute does not change how it ends. -/
theorem absolute_getLast? {cwd : Place} {dir q : FsPath} (h : dir.absolute cwd = some q) :
    q.parts.getLast? = dir.parts.getLast? := by
  obtain ⟨hne, -, hparts⟩ := absolute_spec h
  rw [hparts]
  by_cases habs : dir.isAbsolute = true
  · simp [habs]
  · have hparts' : dir.parts ≠ [] := by
      intro hnil
      simp [FsPath.isEmpty, hnil, habs] at hne
    rw [List.getLast?_append_of_ne_nil _ hparts']

theorem absolute_stripped {cwd : Place} {dir q : FsPath} (h : dir.absolute cwd = some q) :
    q.stripped.parts = (if dir.isAbsolute then [] else cwd) ++ dir.stripped.parts := by
  obtain ⟨-, -, hparts⟩ := absolute_spec h
  have hlast := absolute_getLast? h
  rw [FsPath.stripped, FsPath.stripped, FsPath.trailing, FsPath.trailing, hlast]
  by_cases ht : dir.parts.getLast? = some ""
  · have hne : dir.parts ≠ [] := by
      intro hnil
      simp [hnil] at ht
    simp [ht, hparts, List.dropLast_append_of_ne_nil hne]
  · simp [ht, hparts]

/-- A relative path is joined before or after the directory is made absolute. -/
theorem absolute_join {cwd : Place} {dir q rel : FsPath} (h : dir.absolute cwd = some q)
    (hrel : rel.isAbsolute = false) : (dir.join rel).absolute cwd = some (q.join rel) := by
  obtain ⟨-, hqabs, -⟩ := absolute_spec h
  have hne : (dir.join rel).isEmpty = false := by
    by_cases hr : rel.parts = [] <;> simp [FsPath.join, FsPath.isEmpty, hrel, hr]
  rw [FsPath.absolute, if_neg (by simp [hne])]
  have hstripped := absolute_stripped h
  by_cases habs : dir.isAbsolute = true
  · simp only [FsPath.join, hrel, Bool.false_eq_true, if_false, habs, if_true]
    rw [hstripped, hqabs]
    simp [habs]
  · simp only [FsPath.join, hrel, Bool.false_eq_true, if_false, habs]
    rw [hstripped, hqabs]
    simp [habs]

theorem join_absolute {q rel : FsPath} (hq : q.isAbsolute = true) : (q.join rel).isAbsolute = true := by
  by_cases h : rel.isAbsolute = true
  · simp [FsPath.join, h]
  · simp [FsPath.join, h, hq]

section Join

variable {q rel : FsPath} (hq : q.isAbsolute = true) (hrel : rel.isAbsolute = false)
  (hup : ".." ∉ rel.parts)

include hrel hup in
theorem normalNames_join : (q.join rel).normalNames = q.normalNames ++ names rel.parts := by
  have hparts : (q.join rel).parts = q.stripped.parts ++ if rel.parts = [] then [""] else rel.parts := by
    simp [FsPath.join, hrel]
  have hup' : ".." ∉ (if rel.parts = [] then [""] else rel.parts) := by
    split_ifs
    · simp
    · exact hup
  have hnames : names (if rel.parts = [] then [""] else rel.parts) = names rel.parts := by
    split_ifs with hnil
    · rw [hnil]
      rfl
    · rfl
  rw [normalNames, hparts, normalParts_append, normalNames_stripped, normalParts_of_no_up hup', hnames,
    List.reverse_reverse]
  rfl

include hq hrel hup in
/-- The parent of what is joined stands below the directory. -/
theorem parent_join : (q.join rel).normal.parent =
    { isAbsolute := true, parts := q.normalNames ++ names rel.parts.dropLast } := by
  have hnames := normalNames_join (q := q) hrel hup
  have hnormal := normal_of_absolute (join_absolute hq : (q.join rel).isAbsolute = true)
  rw [hnormal, FsPath.parent, hnames]
  congr 1
  rcases List.eq_nil_or_concat rel.parts with hnil | ⟨init, last, hlast⟩
  · have hends : (q.join rel).endsInDirectory = true := by
      simp [endsInDirectory, FsPath.join, hrel, hnil]
    by_cases hN : q.normalNames = [] <;> simp [hnil, hends, hN]
  · rw [List.concat_eq_append] at hlast
    have hends : (q.join rel).endsInDirectory = decide (last = "." ∨ last = "") := by
      have : last ≠ ".." := fun heq => hup (by simp [hlast, heq])
      simp [endsInDirectory, FsPath.join, hrel, hlast, this]
    by_cases hskip : last = "." ∨ last = ""
    · have : names [last] = [] := by rcases hskip with rfl | rfl <;> rfl
      simp only [hlast, names_append, this, List.append_nil, hends, hskip, decide_true, and_true,
        List.dropLast_concat]
      split_ifs with hM
      · simp
      · simp only [ne_eq, Decidable.not_not] at hM
        simp [hM]
    · have : names [last] = [last] := by
        simp only [not_or] at hskip
        simp [names, hskip]
      simp [hlast, names_append, this, hends, hskip]

end Join

/-! ## What the check does with them

The loop over the parts runs as far as the shorter list. What it looks up in the tree on its
way are the places above the target. -/

section Check

variable {env : ReceiveEnv} {t : Tree} {place : Place} {q : FsPath} {relative : String}

theorem safeJoin_ok {base target : FsPath} (h : safeJoin base relative = .ok target) :
    (ofString relative).isAbsolute = false ∧ ".." ∉ (ofString relative).parts ∧
      target = base.join (ofString relative) := by
  simp only [safeJoin] at h
  split_ifs at h with hnul habs hup
  · simp at h
    exact ⟨by simpa using habs, by simpa using hup, h.symm⟩

/-- The root of the check: the place, and one more part where the spelling ends in a
    directory. -/
theorem root_of_spelling (habs : env.outputDir.absolute env.cwd = some q) :
    env.absoluteNormalized env.outputDir relative = .ok
      { isAbsolute := true
        parts := q.normalNames ++
          if q.normalNames ≠ [] ∧ env.outputDir.endsInDirectory then [""] else [] } := by
  have hends : q.endsInDirectory = env.outputDir.endsInDirectory := by
    rw [endsInDirectory, endsInDirectory, absolute_getLast? habs]
  rw [ReceiveEnv.absoluteNormalized, habs]
  simp only [normal_of_absolute (absolute_spec habs).2.1, hends]

theorem target_of_spelling (habs : env.outputDir.absolute env.cwd = some q)
    (hrel : (ofString relative).isAbsolute = false) :
    env.absoluteNormalized (env.outputDir.join (ofString relative)) relative =
      .ok (q.join (ofString relative)).normal := by
  rw [ReceiveEnv.absoluteNormalized, absolute_join habs hrel]

/-- Going down names that are directories, or nothing, the walk finds nothing to refuse. -/
theorem walkParent_plain {base parts : List String} (h : Plain t [] (base ++ parts))
    (hn : ∀ part ∈ base ++ parts, isName part) :
    env.walkParent t relative { isAbsolute := true, parts := base } parts = .ok () := by
  induction parts generalizing base with
  | nil => rfl
  | cons part rest ih =>
    have hname := hn part (by simp)
    obtain ⟨hskip, hup⟩ := isSkip_of_isName hname
    have hdot : part ≠ "." := by
      rintro rfl
      exact absurd hname (by decide)
    have hbase : base.getLast? ≠ some "" :=
      getLast?_ne_of_isName (fun p hp => hn p (List.mem_append_left _ hp)) (by decide)
    have hnext : FsPath.join { isAbsolute := true, parts := base } { parts := [part] } =
        { isAbsolute := true, parts := base ++ [part] } := by
      simp [FsPath.join, FsPath.stripped, FsPath.trailing, hbase]
    have hassoc : base ++ part :: rest = (base ++ [part]) ++ rest := by simp
    rw [hassoc] at h hn
    have hstat : env.symlinkStatus t { isAbsolute := true, parts := base ++ [part] } = none ∨
        env.symlinkStatus t { isAbsolute := true, parts := base ++ [part] } = some .dir :=
      lstat_plain (by simp) (fun q hq => h q (hq.trans (List.prefix_append ..)))
        fun p hp => hn p (List.mem_append_left _ hp)
    have hrest := ih h hn
    rw [ReceiveEnv.walkParent, if_neg hdot, if_neg hup, hnext]
    rcases hstat with hs | hs <;> simp only [hs, hrest]

/-- What is walked is the parent's way from the directory. -/
theorem relativeParts_below (parts : List String) :
    (FsPath.mk true (place ++ parts)).relativeParts { isAbsolute := true, parts := place } =
      if parts = [] ∨ parts = [""] then ["."] else parts := by
  have hmismatch : mismatch (place ++ parts) place = (parts, []) := by
    induction place with
    | nil => cases parts <;> rfl
    | cons part rest ih => simpa [mismatch] using ih
  simp [relativeParts, hmismatch]

theorem plain_below (hdir : LinkFree t place) {parts : List String} (h : Plain t place parts) :
    Plain t [] (place ++ parts) := by
  intro p hp hne
  rcases List.prefix_or_prefix_of_prefix hp (List.prefix_append place parts) with hp' | ⟨rest, rfl⟩
  · exact .inr (hdir p hp' hne)
  · by_cases hnil : rest = []
    · subst hnil
      exact .inr (hdir _ (by simp) (by simpa using hne))
    · exact h rest ((List.prefix_append_right_inj place).mp hp) hnil

theorem names_of_join (q : FsPath) {parts : List String} (h : ".." ∉ parts) :
    ∀ part ∈ q.normalNames ++ names parts, isName part := by
  intro part hp
  rcases List.mem_append.mp hp with hp | hp
  · exact normalNames_isName q part hp
  · exact names_isName h part hp

/-- The root of the check is the place itself, where the spelling ends in a name. -/
theorem root_of_named (habs : env.outputDir.absolute env.cwd = some q) (hplace : q.normalNames = place)
    (hend : place = [] ∨ env.outputDir.endsInDirectory = false) :
    env.absoluteNormalized env.outputDir relative = .ok { isAbsolute := true, parts := place } := by
  rw [root_of_spelling habs, hplace, if_neg (by rcases hend with h | h <;> simp [h]), List.append_nil]

/-- Where the root's last part is a name, the check passes what it should. -/
theorem complete_of_named (habs : env.outputDir.absolute env.cwd = some q)
    (hplace : q.normalNames = place) (hdir : LinkFree t place)
    (hend : place = [] ∨ env.outputDir.endsInDirectory = false) : env.Complete t place := by
  intro relative target hjoin hclear
  obtain ⟨hrel, hup, rfl⟩ := safeJoin_ok hjoin
  have hqabs := (absolute_spec habs).2.1
  have hroot : env.absoluteNormalized env.outputDir relative = _ := root_of_named habs hplace hend
  have hup' : ".." ∉ (ofString relative).parts.dropLast := fun h => hup (List.mem_of_mem_dropLast h)
  have hparent : (q.join (ofString relative)).normal.parent =
      { isAbsolute := true, parts := place ++ parentNames relative } := by
    rw [parent_join hqabs hrel hup, hplace]
    rfl
  have hpre : FsPath.hasPrefix { isAbsolute := true, parts := place } (q.join (ofString relative)).normal =
      true := by
    have hle : place <+: (q.join (ofString relative)).normal.parts := by
      have hd : place ++ parentNames relative = (q.join (ofString relative)).normal.parts.dropLast :=
        (congrArg FsPath.parts hparent).symm
      exact (List.prefix_append place _).trans (hd ▸ List.dropLast_prefix _)
    have habs' : (q.join (ofString relative)).normal.isAbsolute = true := by
      rw [normal_of_absolute (join_absolute hqabs)]
    simpa [FsPath.hasPrefix, habs'] using hle
  have hnames : ∀ part ∈ place ++ parentNames relative, isName part := hplace ▸ names_of_join q hup'
  have hplain := plain_below hdir hclear
  have hcanonRoot : weaklyCanonical t [] place = place := by
    have hroot : isDir t [] = true := rfl
    simpa using weaklyCanonical_plain hroot (fun p hp hne => .inr (hdir p hp hne))
      fun p hp => hnames p (List.mem_append_left _ hp)
  have hcanon : weaklyCanonical t [] (place ++ parentNames relative) = place ++ parentNames relative := by
    have hroot : isDir t [] = true := rfl
    simpa using weaklyCanonical_plain hroot hplain hnames
  rw [ReceiveEnv.validateReceiveTargetParent, hroot, target_of_spelling habs hrel]
  simp only [bind, Except.bind, hpre, hparent, hcanonRoot, hcanon, relativeParts_below, not_true_eq_false,
    if_false, List.isPrefixOf_iff_prefix, List.prefix_append]
  have hne : parentNames relative ≠ [""] := by
    intro heq
    have := hnames "" (by simp [heq])
    exact absurd this (by decide)
  by_cases hnil : parentNames relative = []
  · simp [hnil, ReceiveEnv.walkParent]
  · rw [if_neg (by simp [hnil, hne])]
    exact walkParent_plain hplain hnames

/-- Where the root's last part is the empty one behind a slash, a plain file name is refused. -/
theorem refuses_of_trailing (habs : env.outputDir.absolute env.cwd = some q)
    (hplace : q.normalNames = place) (hne : place ≠ []) (hend : env.outputDir.endsInDirectory = true) :
    env.validateReceiveTargetParent t (env.outputDir.join (ofString "x")) "x" =
      .error "refusing receive target outside output directory: x" := by
  have hroot : env.absoluteNormalized env.outputDir "x" =
      .ok { isAbsolute := true, parts := place ++ [""] } := by
    rw [root_of_spelling habs, hplace, if_pos ⟨hne, hend⟩]
  have hx : (ofString "x").parts = ["x"] := by decide
  have hqabs := (absolute_spec habs).2.1
  have htarget : (q.join (ofString "x")).normal = { isAbsolute := true, parts := place ++ ["x"] } := by
    have hends : (q.join (ofString "x")).endsInDirectory = false := by
      simp [endsInDirectory, FsPath.join, hx, show (ofString "x").isAbsolute = false by decide]
    rw [normal_of_absolute (join_absolute hqabs), normalNames_join (by decide) (by decide), hplace, hends, hx]
    simp
    rfl
  have hpre : FsPath.hasPrefix { isAbsolute := true, parts := place ++ [""] }
      { isAbsolute := true, parts := place ++ ["x"] } = false := by
    have hpre : ¬ (place ++ [""]).isPrefixOf (place ++ ["x"]) = true := by
      rw [List.isPrefixOf_iff_prefix, List.prefix_append_right_inj]
      decide
    rw [FsPath.hasPrefix, eq_false_of_ne_true hpre, Bool.and_false]
  rw [ReceiveEnv.validateReceiveTargetParent, hroot, target_of_spelling habs (by decide), htarget]
  simp [bind, Except.bind, hpre]

theorem named_of_complete (habs : env.outputDir.absolute env.cwd = some q)
    (hplace : q.normalNames = place) (hok : env.Complete t place) :
    place = [] ∨ env.outputDir.endsInDirectory = false := by
  by_cases hne : place = []
  · exact .inl hne
  refine .inr (eq_false_of_ne_true fun hend => ?_)
  have hclear : Plain t place (parentNames "x") := by
    intro p hp hpne
    exact absurd (List.prefix_nil.mp hp) hpne
  have hpass := hok "x" _ rfl hclear
  rw [refuses_of_trailing habs hplace hne hend] at hpass
  cases hpass

/-- Two spellings of one place are joined to the same target. -/
theorem normal_join_eq {q q' rel : FsPath} (hq : q.isAbsolute = true) (hq' : q'.isAbsolute = true)
    (h : q.normalNames = q'.normalNames) (hrel : rel.isAbsolute = false) (hup : ".." ∉ rel.parts) :
    (q.join rel).normal = (q'.join rel).normal := by
  have hends : (q.join rel).endsInDirectory = (q'.join rel).endsInDirectory := by
    rcases List.eq_nil_or_concat rel.parts with hnil | ⟨init, last, hlast⟩
    · simp [endsInDirectory, FsPath.join, hrel, hnil]
    · simp [endsInDirectory, FsPath.join, hrel, hlast]
  rw [normal_of_absolute (join_absolute hq), normal_of_absolute (join_absolute hq'),
    normalNames_join hrel hup, normalNames_join hrel hup, h, hends]

theorem walkParent_into (dir current : FsPath) (parts : List String) :
    (env.into dir).walkParent t relative current parts = env.walkParent t relative current parts := by
  induction parts generalizing current with
  | nil => rfl
  | cons part rest ih =>
    have hstat (p : FsPath) : (env.into dir).symlinkStatus t p = env.symlinkStatus t p := rfl
    simp only [ReceiveEnv.walkParent, ih, hstat]

/-- A place is a spelling of itself. -/
theorem normalNames_place (hnames : ∀ part ∈ place, isName part) :
    (FsPath.mk true place).normalNames = place := by
  have hup : ".." ∉ place := fun h => absurd (hnames ".." h) (by decide)
  rw [normalNames, normalParts_of_no_up hup, List.reverse_nil, List.nil_append, names,
    List.filter_eq_self]
  intro part hp
  have := hnames part hp
  simp only [isName, Bool.and_eq_true] at this
  simp [this.1]

/-- The verdict where the spelling ends in a name is the place's own. -/
theorem verdict_of_named {dir : FsPath} (habs : dir.absolute env.cwd = some q) (hplace : q.normalNames = place)
    (hend : place = [] ∨ dir.endsInDirectory = false) :
    (env.into dir).verdict t relative =
      (env.into { isAbsolute := true, parts := place }).verdict t relative := by
  have hnames : ∀ part ∈ place, isName part := hplace ▸ normalNames_isName q
  have hself := normalNames_place hnames
  have hselfEnds : (FsPath.mk true place).endsInDirectory = false := by
    have hlast (part : String) : isName part = false → place.getLast? ≠ some part :=
      getLast?_ne_of_isName hnames
    simp [endsInDirectory, hlast "." (by decide), hlast "" (by decide), hlast ".." (by decide)]
  cases hjoin : safeJoin dir relative with
  | error e =>
    have hjoin' : safeJoin { isAbsolute := true, parts := place } relative = .error e := by
      simp only [safeJoin] at hjoin ⊢
      split_ifs at hjoin ⊢ <;> exact hjoin
    simp only [ReceiveEnv.verdict, ReceiveEnv.into, hjoin, hjoin', bind, Except.bind]
  | ok target =>
    obtain ⟨hrel, hup, rfl⟩ := safeJoin_ok hjoin
    have hjoin' : safeJoin { isAbsolute := true, parts := place } relative =
        .ok (FsPath.join { isAbsolute := true, parts := place } (ofString relative)) := by
      simp only [safeJoin] at hjoin ⊢
      split_ifs at hjoin ⊢
      rfl
    have hroot := @root_of_named (env.into dir) place q relative habs hplace hend
    have hroot' := @root_of_named (env.into { isAbsolute := true, parts := place }) place
      { isAbsolute := true, parts := place } relative rfl hself (.inr hselfEnds)
    have htarget := @target_of_spelling (env.into dir) q relative habs hrel
    have htarget' := @target_of_spelling (env.into { isAbsolute := true, parts := place })
      { isAbsolute := true, parts := place } relative rfl hrel
    rw [← normal_join_eq (absolute_spec habs).2.1 rfl (hplace.trans hself.symm) hrel hup] at htarget'
    simp only [ReceiveEnv.verdict, ReceiveEnv.validateReceiveTargetParent]
    simp only [ReceiveEnv.into] at hroot hroot' htarget htarget' ⊢
    simp only [hjoin, hjoin', hroot, hroot', htarget, htarget', bind, Except.bind]
    have hwalk (d : FsPath) := @walkParent_into env t relative d
    simp only [ReceiveEnv.into] at hwalk
    simp only [hwalk]

end Check

/-- **Which spellings of an output directory can be used.** Two spellings of a directory that
    is there, with no link on the way: the check passes in both what it should, and says the
    same of every name, exactly where both end in a name, or the directory is the root. -/
theorem spelling_iff (env : ReceiveEnv) (t : Tree) (place : Place) (dir dir' : FsPath)
    (hdir : LinkFree t place) (h : Spells env.cwd dir place) (h' : Spells env.cwd dir' place) :
    ((env.into dir).Complete t place ∧ (env.into dir').Complete t place ∧
        ∀ relative, (env.into dir).verdict t relative = (env.into dir').verdict t relative) ↔
      place = [] ∨ (dir.endsInDirectory = false ∧ dir'.endsInDirectory = false) := by
  obtain ⟨q, hq, hplace⟩ := h
  obtain ⟨q', hq', hplace'⟩ := h'
  constructor
  · rintro ⟨hok, hok', -⟩
    rcases @named_of_complete (env.into dir) t place q hq hplace hok with hroot | hend
    · exact .inl hroot
    rcases @named_of_complete (env.into dir') t place q' hq' hplace' hok' with hroot | hend'
    · exact .inl hroot
    exact .inr ⟨hend, hend'⟩
  · intro hend
    have hends : place = [] ∨ dir.endsInDirectory = false := hend.imp_right And.left
    have hends' : place = [] ∨ dir'.endsInDirectory = false := hend.imp_right And.right
    refine ⟨@complete_of_named (env.into dir) t place q hq hplace hdir hends,
      @complete_of_named (env.into dir') t place q' hq' hplace' hdir hends', fun relative => ?_⟩
    rw [verdict_of_named hq hplace hends, verdict_of_named hq' hplace' hends']

theorem sampleDisk_linkFree : LinkFree sampleDisk.tree ["out"] := by
  intro p hp hne
  rcases List.prefix_cons_iff.mp hp with rfl | ⟨rest, rfl, hrest⟩
  · exact absurd rfl hne
  · rw [List.prefix_nil.mp hrest]
    rfl

/-- Below a directory the default spelling of it refuses every plain file name, and the
    absolute one takes it. -/
theorem default_refused :
    LinkFree sampleDisk.tree ["out"] ∧ Spells ["out"] (ofString ".") ["out"] ∧
      Spells ["out"] (ofString "/out") ["out"] ∧
      (let env : ReceiveEnv := { sampleEnv with cwd := ["out"] }
       Plain sampleDisk.tree ["out"] (parentNames "x") ∧
        (env.into (ofString ".")).verdict sampleDisk.tree "x" =
          .error "refusing receive target outside output directory: x" ∧
        (env.into (ofString "/out")).verdict sampleDisk.tree "x" = .ok ()) := by
  refine ⟨sampleDisk_linkFree, ⟨{ isAbsolute := true, parts := ["out", "."] }, by decide, by decide⟩,
    ⟨ofString "/out", by decide, by decide⟩, ?_, by decide, by decide⟩
  intro p hp hne
  exact absurd (List.prefix_nil.mp hp) hne

/-- The spellings `/out` and `../out` agree. -/
theorem spelling_iff_sample :
    ((sampleEnv.into (ofString "/out")).Complete sampleDisk.tree ["out"] ∧
      (sampleEnv.into (ofString "../out")).Complete sampleDisk.tree ["out"] ∧
        ∀ relative, (sampleEnv.into (ofString "/out")).verdict sampleDisk.tree relative =
          (sampleEnv.into (ofString "../out")).verdict sampleDisk.tree relative) ↔
      (["out"] : Place) = [] ∨
        ((ofString "/out").endsInDirectory = false ∧ (ofString "../out").endsInDirectory = false) :=
  spelling_iff sampleEnv sampleDisk.tree ["out"] (ofString "/out") (ofString "../out")
    sampleDisk_linkFree ⟨ofString "/out", by decide, by decide⟩
    ⟨{ isAbsolute := true, parts := ["..", "out"] }, by decide, by decide⟩

end Kiko.Transfer
