import Kiko.Lib.Ensures
import Kiko.Lib.TreeGrowth
import Kiko.Transfer.Intake
import Kiko.Transfer.Spelling

/-!
# Where a receiver's paths lead

The receiver checks a target by the normal form of its path and acts on the path as it is
spelled. Where the output directory as spelled and its normal form lead to one place
(`Agrees`), the check says what it is meant to: on the way from the output directory to the
target there are directories, and then nothing (`straight_of_valid`). So the target is where
its names say, below the output directory (`locate_below`), and so is whatever is made,
written, moved or removed on the way to it.

Three notions of a path meet: the text of the header, its lexical normal form, and the place
it leads to in the tree. The first is what the peer chooses, the second is what is checked,
the third is what is acted on. The lemmas are about the step from the second to the third,
for a tree that may hold links anywhere. A place is a list of names, so what is below what
is a matter of prefixes. Links are ruled out on the way from the output directory down, and
nowhere else.
-/

set_option autoImplicit false

namespace Kiko.Transfer

open Lexical FileTree FsPath Effect

/-- The path goes down `rel` from the output directory; only the names on the way count, and the
    last part. -/
structure Below (env : ReceiveEnv) (p : FsPath) (rel : List String) : Prop where
  absolute : p.isAbsolute = env.outputDir.isAbsolute
  names : names p.parts = names env.outputDir.parts ++ names rel
  last : p.parts.getLast? = rel.getLast?
  ne : rel ≠ []
  no_up : ".." ∉ rel

/-- The output directory is at `root`, as it is spelled and in its normal form. -/
structure Agrees (env : ReceiveEnv) (t : Tree) (root : Place) : Prop where
  here : look t (origin env.cwd env.outputDir) = some .dir
  spelled : resolve t env.cwd env.outputDir = some root
  normal : ∃ q, env.outputDir.absolute env.cwd = some q ∧ walk t maxLinks [] q.normalNames = some root

section Names

theorem names_names (parts : List String) : names (names parts) = names parts := by
  simp [names]

theorem names_concat (init : List String) (last : String) :
    names (init ++ [last]) = names init ++ if isSkip last then [] else [last] := by
  rw [names_append]
  congr 1
  exact names_cons last []

/-- Only the names of a path count for its normal form. -/
theorem normalParts_names (absolute : Bool) (taken parts : List String) :
    normalParts absolute taken (names parts) = normalParts absolute taken parts := by
  induction parts generalizing taken with
  | nil => rfl
  | cons part rest ih =>
    rw [names_cons]
    by_cases hskip : isSkip part = true
    · rw [if_pos hskip, ih, normalParts_cons, if_pos]
      simpa [isSkip, or_comm] using hskip
    · have hnot : ¬ (part = "." ∨ part = "") := by simpa [isSkip, or_comm] using hskip
      rw [if_neg hskip, normalParts_cons, normalParts_cons, if_neg hnot, if_neg hnot]
      by_cases hup : part = ".."
      · rw [if_pos hup, if_pos hup]
        cases taken with
        | nil => exact ih _
        | cons top below =>
          by_cases htop : top = ".."
          · simp only [if_pos htop]
            exact ih _
          · simp only [if_neg htop]
            exact ih _
      · rw [if_neg hup, if_neg hup, ih]

theorem names_stripped (p : FsPath) : names p.stripped.parts = names p.parts := by
  unfold FsPath.stripped
  split_ifs with h
  · have hlast : p.parts.getLast? = some "" := by simpa [trailing] using h
    conv_rhs => rw [← List.dropLast_append_getLast? "" hlast]
    rw [names_append]
    simp [names]
  · rfl

end Names

section Below

variable {env : ReceiveEnv} {t t' : Tree} {root : Place} {p : FsPath} {rel : List String}

/-- What `safe_join` joins is below the output directory. -/
theorem below_of_safeJoin {relative : String} (h : safeJoin env.outputDir relative = .ok p) :
    Below env p (if (ofString relative).parts = [] then [""] else (ofString relative).parts) := by
  obtain ⟨hrel, hup, rfl⟩ := safeJoin_ok h
  have hne : (if (ofString relative).parts = [] then [""] else (ofString relative).parts) ≠ [] := by
    split_ifs with hnil
    · simp
    · exact hnil
  refine ⟨by simp [FsPath.join, hrel], ?_, ?_, hne, ?_⟩
  · simp [FsPath.join, hrel, names_stripped]
  · simp [FsPath.join, hrel, List.getLast?_append_of_ne_nil _ hne]
  · split_ifs
    · simp
    · exact hup

/-- What is above the last part. -/
theorem Below.names_dropLast (h : Below env p rel) :
    FsPath.names p.parts.dropLast = FsPath.names env.outputDir.parts ++ FsPath.names rel.dropLast := by
  obtain ⟨init, last, hrel⟩ : ∃ init last, rel = init ++ [last] :=
    ⟨rel.dropLast, rel.getLast h.ne, (List.dropLast_append_getLast h.ne).symm⟩
  have hlast : p.parts.getLast? = some last := by rw [h.last, hrel, List.getLast?_concat]
  have hnames := h.names
  rw [← List.dropLast_append_getLast? last hlast, hrel, names_concat, names_concat, ← List.append_assoc] at hnames
  rw [hrel, List.dropLast_concat]
  exact List.append_cancel_right hnames

/-- A path whose last name goes on. -/
theorem Below.concat (h : Below env p rel) {text : String} (htext : ∀ name : String, name ++ text ≠ "..") :
    Below env (p.concat text) (rel.dropLast ++ [rel.getLast?.getD "" ++ text]) := by
  refine ⟨h.absolute, ?_, ?_, by simp, ?_⟩
  · rw [FsPath.concat, h.last]
    simp only [names_append, h.names_dropLast, List.append_assoc]
  · simp [FsPath.concat, h.last]
  · intro hmem
    rcases List.mem_append.mp hmem with hmem | hmem
    · exact h.no_up (List.mem_of_mem_dropLast hmem)
    · exact htext _ (List.mem_singleton.mp hmem).symm

/-- Another name in the same directory. -/
theorem Below.sibling (h : Below env p rel) {name : String} (hname : name ≠ "..") :
    Below env (p.parent.join { parts := [name] }) (rel.dropLast ++ [name]) := by
  refine ⟨?_, ?_, ?_, by simp, ?_⟩
  · have habs : p.parent.isAbsolute = env.outputDir.isAbsolute := h.absolute
    simpa [FsPath.join] using habs
  · have hparent : p.parent.parts = p.parts.dropLast := rfl
    simp [FsPath.join, names_stripped, hparent, h.names_dropLast]
  · simp [FsPath.join]
  · intro hmem
    rcases List.mem_append.mp hmem with hmem | hmem
    · exact h.no_up (List.mem_of_mem_dropLast hmem)
    · exact hname (List.mem_singleton.mp hmem).symm

theorem Agrees.keeps (h : Agrees env t root) (hk : Keeps t t') : Agrees env t' root := by
  obtain ⟨q, hq, hwalk⟩ := h.normal
  refine ⟨?_, resolve_keeps hk h.spelled, q, hq, walk_keeps hk (Nat.le_refl _) hwalk⟩
  have hhere := h.here
  unfold look at hhere ⊢
  split_ifs at hhere ⊢
  · rfl
  · exact hk.dir hhere

theorem Agrees.dir (h : Agrees env t root) (hs : Sane t) : look t root = some .dir := by
  obtain ⟨q, -, hwalk⟩ := h.normal
  exact hs.dir_of_walk rfl hwalk

/-- From the output directory on a walk goes on from its place. -/
theorem Agrees.walk_below (h : Agrees env t root) (habs : p.isAbsolute = env.outputDir.isAbsolute)
    {parts rest : List String} (hparts : names parts = names env.outputDir.parts ++ rest) :
    walk t maxLinks (origin env.cwd p) parts = walk t maxLinks root rest := by
  have hspelled := h.spelled
  rw [resolve] at hspelled
  split_ifs at hspelled
  have horigin : origin env.cwd p = origin env.cwd env.outputDir := by simp only [origin, habs]
  rw [← walk_names, hparts, walk_append, walk_names, horigin, hspelled, Option.bind_some]

/-- Where a target is: down the names, and then its last part. -/
theorem locate_eq (h : Agrees env t root) (hb : Below env p rel) :
    ∃ last, names rel = names rel.dropLast ++ last ∧ last.length ≤ 1 ∧
      locate t env.cwd p = (walk t maxLinks root (names rel.dropLast)).map (· ++ last) := by
  obtain ⟨init, last, hrel⟩ : ∃ init last, rel = init ++ [last] :=
    ⟨rel.dropLast, rel.getLast hb.ne, (List.dropLast_append_getLast hb.ne).symm⟩
  have hlast : p.parts.getLast? = some last := by rw [hb.last, hrel, List.getLast?_concat]
  have hne : last ≠ ".." := fun heq => hb.no_up (by simp [hrel, heq])
  have hdrop : rel.dropLast = init := by rw [hrel, List.dropLast_concat]
  refine ⟨if isSkip last then [] else [last], by rw [hdrop, hrel, names_concat], by split_ifs <;> simp, ?_⟩
  by_cases hskip : isSkip last = true
  · have hopen : endsOpen p = true := by simp [endsOpen, hlast, hskip]
    have hparts : p.parts ≠ [] := by
      rintro hnil
      simp [hnil] at hlast
    have hempty : ¬ p.isEmpty = true := by simp [FsPath.isEmpty, hparts]
    have hnames : names rel = names rel.dropLast := by
      rw [hdrop, hrel, names_concat, if_pos hskip, List.append_nil]
    rw [locate, if_pos hopen, resolve, if_neg hempty, h.walk_below hb.absolute hb.names, hnames, if_pos hskip]
    simp
  · have hopen : endsOpen p = false := by simp [endsOpen, hlast, hskip, hne]
    have hfile : p.filename = last := by simp [FsPath.filename, hlast]
    rw [locate_of_named hopen, h.walk_below hb.absolute hb.names_dropLast, hfile, if_neg hskip]

theorem Below.isName (hb : Below env p rel) : ∀ part ∈ FsPath.names rel.dropLast, FsPath.isName part :=
  names_isName fun hmem => hb.no_up (List.mem_of_mem_dropLast hmem)

/-- **A target stands where its names say**, when the way to it is straight. -/
theorem locate_below (h : Agrees env t root) (hb : Below env p rel)
    (hs : Straight t root (names rel.dropLast)) {place : Place} (hp : locate t env.cwd p = some place) :
    place = root ++ names rel ∧ Descends t root (names rel.dropLast) := by
  obtain ⟨last, hnames, -, hlocate⟩ := locate_eq h hb
  rw [hlocate] at hp
  obtain ⟨there, hthere, rfl⟩ := Option.map_eq_some_iff.mp hp
  obtain ⟨rfl, hdesc⟩ := hs.walk hb.isName hthere
  exact ⟨by rw [hnames, List.append_assoc], hdesc⟩

/-- And it is found there, once the directories are. -/
theorem locate_of_descends (h : Agrees env t root) (hb : Below env p rel)
    (hd : Descends t root (names rel.dropLast)) : locate t env.cwd p = some (root ++ names rel) := by
  obtain ⟨last, hnames, -, hlocate⟩ := locate_eq h hb
  rw [hlocate, hd.walk hb.isName, hnames, Option.map_some, List.append_assoc]

/-- A target that is not found is not there. -/
theorem look_eq_none (h : Agrees env t root) (hsane : Sane t) (hb : Below env p rel)
    (hs : Straight t root (names rel.dropLast)) (hstat : env.symlinkStatus t p = none) :
    look t (root ++ names rel) = none := by
  by_contra hsome
  have hdesc : Descends t root (names rel.dropLast) := by
    obtain ⟨last, hnames, hlength, -⟩ := locate_eq h hb
    by_cases hroot : root ++ names rel = []
    · have : names rel.dropLast = [] := by
        rw [hnames] at hroot
        simp only [List.append_eq_nil_iff] at hroot
        exact hroot.2.1
      rw [this]
      exact .nil
    · rw [look, if_neg hroot] at hsome
      cases last with
      | nil =>
        rw [List.append_nil] at hnames
        rw [hnames] at hsome
        exact hsane.descends_of_straight hs hsome
      | cons name rest =>
        obtain rfl : rest = [] := List.length_eq_zero_iff.mp (by simpa using hlength)
        rw [hnames] at hsome
        exact hsane.descends hsome
  rw [ReceiveEnv.symlinkStatus, lstat, locate_of_descends h hb hdesc, Option.bind_some] at hstat
  exact hsome hstat

end Below

section Valid

variable {env : ReceiveEnv} {t : Tree} {root : Place} {p : FsPath} {rel : List String} {relative : String}

/-- What the walk down to the parent has seen. -/
theorem straight_of_walkParent {base above parts : List String} (hwalk : walk t maxLinks [] base = some root)
    (hdesc : Descends t root above) (hn : ∀ part ∈ base ++ above ++ parts, isName part)
    (h : env.walkParent t relative { isAbsolute := true, parts := base ++ above } parts = .ok ()) :
    Straight t (root ++ above) parts := by
  induction parts generalizing above with
  | nil => trivial
  | cons part rest ih =>
    have hname := hn part (by simp)
    obtain ⟨hskip, hup⟩ := isSkip_of_isName hname
    have hdot : part ≠ "." := by
      rintro rfl
      exact absurd hname (by decide)
    have hlast : (base ++ above).getLast? ≠ some "" :=
      getLast?_ne_of_isName (fun q hq => hn q (List.mem_append_left _ hq)) (by decide)
    have hstripped : FsPath.stripped { isAbsolute := true, parts := base ++ above } =
        { isAbsolute := true, parts := base ++ above } := by
      rw [FsPath.stripped, FsPath.trailing, if_neg (by simpa only [decide_eq_true_eq] using hlast)]
    have hnext : FsPath.join { isAbsolute := true, parts := base ++ above } { parts := [part] } =
        { isAbsolute := true, parts := base ++ (above ++ [part]) } := by
      simp [FsPath.join, hstripped]
    have habove : walk t maxLinks [] (base ++ above) = some (root ++ above) := by
      rw [walk_append, hwalk, Option.bind_some]
      exact hdesc.walk fun q hq => hn q (by simp [hq])
    have hstat : env.symlinkStatus t { isAbsolute := true, parts := base ++ (above ++ [part]) } =
        t (root ++ above ++ [part]) := by
      have hopen : endsOpen { isAbsolute := true, parts := base ++ (above ++ [part]) } = false := by
        simp [endsOpen, ← List.append_assoc, hskip, hup]
      rw [ReceiveEnv.symlinkStatus, lstat, locate_of_named hopen]
      simp [origin, ← List.append_assoc, habove, FsPath.filename, look]
    rw [ReceiveEnv.walkParent, if_neg hdot, if_neg hup, hnext] at h
    simp only [hstat] at h
    split at h
    next hnone => exact .inl hnone
    next hdir =>
      refine .inr ⟨hdir, ?_⟩
      have hdesc' : Descends t root (above ++ [part]) := by
        intro q hq hne
        rcases List.prefix_concat_iff.mp hq with rfl | hq'
        · simpa using hdir
        · exact hdesc q hq' hne
      have := ih hdesc' (by simpa using hn) h
      simpa using this
    next => cases h
    next => cases h

/-- The normal form of a path below the output directory. -/
theorem normalNames_below {q qp : FsPath} (hq : env.outputDir.absolute env.cwd = some q) (hb : Below env p rel)
    (hqp : p.absolute env.cwd = some qp) : qp.normalNames = q.normalNames ++ names rel := by
  obtain ⟨-, -, hparts⟩ := absolute_spec hq
  obtain ⟨-, -, hparts'⟩ := absolute_spec hqp
  rw [normalNames, normalNames, hparts, hparts', hb.absolute, normalParts_append, normalParts_append,
    ← normalParts_names _ _ p.parts, hb.names, normalParts_append, normalParts_names, normalParts_names,
    normalParts_of_no_up hb.no_up, List.reverse_reverse]

theorem absolute_below (hb : Below env p rel) :
    ∃ qp, p.absolute env.cwd = some qp ∧ qp.isAbsolute = true ∧ qp.parts.getLast? = rel.getLast? := by
  have hparts : p.parts ≠ [] := by
    rintro hnil
    have := hb.last
    rw [hnil, List.getLast?_nil, eq_comm, List.getLast?_eq_none_iff] at this
    exact hb.ne this
  have hne : p.isEmpty = false := by simp [FsPath.isEmpty, hparts]
  have hsome : ∃ qp, p.absolute env.cwd = some qp := by
    unfold FsPath.absolute
    split_ifs with hempty
    · simp [hne] at hempty
    · exact ⟨_, rfl⟩
    · exact ⟨_, rfl⟩
  obtain ⟨qp, hqp⟩ := hsome
  exact ⟨qp, hqp, (absolute_spec hqp).2.1, (absolute_getLast? hqp).trans hb.last⟩

/-- The directory above it, in the normal form. -/
theorem parent_below {q qp : FsPath} (hq : env.outputDir.absolute env.cwd = some q) (hb : Below env p rel)
    (hqp : p.absolute env.cwd = some qp) :
    qp.normal.parent = { isAbsolute := true, parts := q.normalNames ++ names rel.dropLast } := by
  obtain ⟨init, last, hrel⟩ : ∃ init last, rel = init ++ [last] :=
    ⟨rel.dropLast, rel.getLast hb.ne, (List.dropLast_append_getLast hb.ne).symm⟩
  have hne : last ≠ ".." := fun heq => hb.no_up (by simp [hrel, heq])
  have hlast : qp.parts.getLast? = some last := by
    rw [absolute_getLast? hqp, hb.last, hrel, List.getLast?_concat]
  have hends : qp.endsInDirectory = isSkip last := by
    simp [endsInDirectory, hlast, hne, isSkip, or_comm]
  rw [normal_of_absolute (absolute_spec hqp).2.1, FsPath.parent, normalNames_below hq hb hqp, hends, hrel,
    List.dropLast_concat, names_concat]
  congr 1
  by_cases hskip : isSkip last = true
  · rw [if_pos hskip, List.append_nil]
    by_cases hnil : q.normalNames ++ names init = []
    · simp [hnil]
    · rw [if_pos ⟨hnil, hskip⟩, List.dropLast_concat]
  · rw [if_neg hskip, if_neg (fun hh => hskip hh.2), List.append_nil, ← List.append_assoc, List.dropLast_concat]

/-- **What the check of a target's parent is for.** -/
theorem straight_of_valid (h : Agrees env t root) (hb : Below env p rel)
    (hv : env.validateReceiveTargetParent t p relative = .ok ()) : Straight t root (names rel.dropLast) := by
  obtain ⟨q, hq, hwalk⟩ := h.normal
  obtain ⟨qp, hqp, habs, -⟩ := absolute_below hb
  have hfull : env.absoluteNormalized p relative = .ok qp.normal := by rw [ReceiveEnv.absoluteNormalized, hqp]
  have hparent := parent_below hq hb hqp
  have hroot := @root_of_spelling env q relative hq
  rw [ReceiveEnv.validateReceiveTargetParent, hroot, hfull] at hv
  simp only [bind, Except.bind, hparent] at hv
  have hn : ∀ part ∈ q.normalNames ++ names rel.dropLast, FsPath.isName part := by
    intro part hp
    rcases List.mem_append.mp hp with hp | hp
    · exact normalNames_isName q part hp
    · exact hb.isName part hp
  split_ifs at hv with hends hpre hcanon hpre hcanon
  · -- the root ends in the empty part behind a slash, where no target has a name
    have hnil : names rel = [] := by
      rw [FsPath.hasPrefix, normal_of_absolute habs, normalNames_below hq hb hqp, List.append_assoc,
        Bool.and_eq_true, List.isPrefixOf_iff_prefix, List.prefix_append_right_inj] at hpre
      cases hcase : names rel with
      | nil => rfl
      | cons name rest =>
        rw [hcase, List.cons_append, List.cons_prefix_cons] at hpre
        have := names_isName hb.no_up name (by simp [hcase])
        rw [← hpre.2.1] at this
        cases this
    obtain ⟨last, hnames, -⟩ := locate_eq h hb
    rw [hnil, eq_comm, List.append_eq_nil_iff] at hnames
    rw [hnames.1]
    trivial
  · rw [List.append_nil, relativeParts_below] at hv
    by_cases hnil : names rel.dropLast = []
    · rw [hnil]
      trivial
    · have hempty : names rel.dropLast ≠ [""] := fun heq => by
        have := hb.isName "" (by simp [heq])
        cases this
      rw [if_neg (not_or.mpr ⟨hnil, hempty⟩)] at hv
      have := @straight_of_walkParent env t root relative q.normalNames [] (names rel.dropLast) hwalk .nil
        (by simpa using hn) (by simpa using hv)
      simpa using this

end Valid

end Kiko.Transfer
