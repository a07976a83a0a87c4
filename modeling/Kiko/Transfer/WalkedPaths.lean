import Kiko.Transfer.CollectFiles

/-!
# Walks from a source directory (`transfer/file_manifest`, `transfer/gitignore`)

A walk is the names from a source directory down, through links as through directories. Three
things are said of its path: where on the disk it leads, name by name (`canonical_concat`), that a
rule of an ignore file matches nothing outside the file's directory (`matchRule_addIgnoreFile`), and
that two walks have two relative names (`intercalate_inj`).
-/

set_option autoImplicit false

namespace Kiko.Transfer.FollowLinks

open Lexical FileTree GitIgnore

/-! ## Where a walk leads

A path resolves name by name, and a name that is a link is resolved on the spot; so the place of a
longer walk is found from the place of the shorter one and the last name. -/

section Canonical

variable {t : FileTree.Tree FileInfo} {here : Place}

theorem canonicalFrom_append (as bs : List String) :
    canonicalFrom t here (as ++ bs) = (canonicalFrom t here as).bind (canonicalFrom t · bs) := by
  induction as generalizing here with
  | nil => rfl
  | cons part rest ih =>
    simp only [List.cons_append, canonicalFrom]
    by_cases hdir : (!isDir t here) = true
    · rw [if_pos hdir, if_pos hdir]
      rfl
    rw [if_neg hdir, if_neg hdir]
    by_cases hskip : isSkip part = true
    · rw [if_pos hskip, if_pos hskip, ih]
    rw [if_neg hskip, if_neg hskip]
    by_cases hup : part = ".."
    · rw [if_pos hup, if_pos hup, ih]
    · rw [if_neg hup, if_neg hup, Option.bind_assoc]
      exact Option.bind_congr fun there _ => ih

theorem canonicalFrom_name {x : String} (hx : FsPath.isName x = true) :
    canonicalFrom t here [x] = if isDir t here then real t maxLinks (here ++ [x]) else none := by
  obtain ⟨hskip, hup⟩ := isSkip_of_isName hx
  cases hdir : isDir t here <;> simp [canonicalFrom, hdir, hskip, hup]

/-- What a link leads to in the end is no link. -/
theorem look_real {links : Nat} {place there : Place} (h : real t links place = some there) :
    look t there = some .dir ∨ ∃ info, look t there = some (.file info) := by
  induction links generalizing place with
  | zero =>
    rw [real] at h
    cases hlook : look t place with
    | none => simp [hlook] at h
    | some node =>
      cases node with
      | symlink target => simp [hlook] at h
      | dir =>
        obtain rfl : place = there := by simpa [hlook] using h
        exact .inl hlook
      | file info =>
        obtain rfl : place = there := by simpa [hlook] using h
        exact .inr ⟨info, hlook⟩
  | succ links ih =>
    rw [real] at h
    cases hlook : look t place with
    | none => simp [hlook] at h
    | some node =>
      cases node with
      | symlink target =>
        simp only [hlook, Option.bind_eq_some_iff] at h
        obtain ⟨next, -, hnext⟩ := h
        exact ih hnext
      | dir =>
        obtain rfl : place = there := by simpa [hlook] using h
        exact .inl hlook
      | file info =>
        obtain rfl : place = there := by simpa [hlook] using h
        exact .inr ⟨info, hlook⟩

end Canonical

/-- The source directory stands at the place. -/
structure RootAt (disk : SourceDisk) (root : FsPath) (top : Place) : Prop where
  canonical : disk.canonical root = some top
  dir : isDir disk.tree top = true

section Walks

variable {disk : SourceDisk} {root : FsPath} {top : Place} {walk : List String} {x : String}

theorem RootAt.not_isEmpty (h : RootAt disk root top) : root.isEmpty = false := by
  have hroot := h.canonical
  unfold SourceDisk.canonical at hroot
  cases hempty : root.isEmpty with
  | false => rfl
  | true => simp [hempty] at hroot

/-- The path of a walk is the source's without its trailing slash, and then the names. -/
theorem entryPath_eq (hwalk : walk ≠ []) :
    entryPath root walk = { root with parts := root.stripped.parts ++ walk } := by
  simp [entryPath, FsPath.join, hwalk]

theorem RootAt.stripped (h : RootAt disk root top) :
    canonicalFrom disk.tree (origin disk.cwd root) root.stripped.parts = some top := by
  have hroot := h.canonical
  rw [SourceDisk.canonical, if_neg (by simp [h.not_isEmpty])] at hroot
  by_cases htrailing : root.trailing = true
  · rw [FsPath.stripped, if_pos htrailing]
    have hlast : root.parts.getLast? = some "" := by simpa [FsPath.trailing] using htrailing
    rw [← List.dropLast_append_getLast? "" hlast, canonicalFrom_append] at hroot
    obtain ⟨there, hthere, hskip⟩ := Option.bind_eq_some_iff.mp hroot
    have : there = top := by
      cases hdir : isDir disk.tree there <;> simp [canonicalFrom, hdir, isSkip] at hskip
      exact hskip
    rw [hthere, this]
  · rw [FsPath.stripped, if_neg htrailing]
    exact hroot

theorem canonical_entryPath (h : RootAt disk root top) (walk : List String) :
    disk.canonical (entryPath root walk) = canonicalFrom disk.tree top walk := by
  have hempty : (entryPath root walk).isEmpty = false := by
    by_cases hwalk : walk = []
    · simp [entryPath, FsPath.join, FsPath.isEmpty, hwalk]
    · simp [entryPath_eq hwalk, FsPath.isEmpty, hwalk]
  rw [SourceDisk.canonical, if_neg (by simp [hempty])]
  by_cases hwalk : walk = []
  · subst hwalk
    show canonicalFrom disk.tree (origin disk.cwd root) (root.stripped.parts ++ [""]) = some top
    rw [canonicalFrom_append, h.stripped]
    simp [canonicalFrom, h.dir, isSkip]
  · rw [entryPath_eq hwalk]
    show canonicalFrom disk.tree (origin disk.cwd root) (root.stripped.parts ++ walk) = _
    rw [canonicalFrom_append, h.stripped]
    rfl

theorem canonical_concat (h : RootAt disk root top) (hx : FsPath.isName x = true) :
    disk.canonical (entryPath root (walk ++ [x])) =
      (disk.canonical (entryPath root walk)).bind fun place =>
        if isDir disk.tree place then real disk.tree maxLinks (place ++ [x]) else none := by
  rw [canonical_entryPath h, canonical_entryPath h, canonicalFrom_append]
  simp only [canonicalFrom_name hx]

theorem symlinkStatus_concat (h : RootAt disk root top) (hx : FsPath.isName x = true) :
    disk.symlinkStatus (entryPath root (walk ++ [x])) =
      (disk.canonical (entryPath root walk)).bind fun place =>
        if isDir disk.tree place then look disk.tree (place ++ [x]) else none := by
  obtain ⟨hskip, hup⟩ := isSkip_of_isName hx
  have hpath := @entryPath_eq root (walk ++ [x]) (by simp)
  have hparts : (entryPath root (walk ++ [x])).parts = (root.stripped.parts ++ walk) ++ [x] := by
    rw [hpath, List.append_assoc]
  have hopen : endsOpen (entryPath root (walk ++ [x])) = false := by
    simp [endsOpen, hparts, hskip, hup]
  rw [SourceDisk.symlinkStatus, hopen, canonical_entryPath h]
  have horigin : origin disk.cwd (entryPath root (walk ++ [x])) = origin disk.cwd root := by
    rw [hpath]
    rfl
  have hname : (entryPath root (walk ++ [x])).filename = x := by
    simp [FsPath.filename, hparts]
  rw [horigin, hname, hparts, List.dropLast_concat, canonicalFrom_append, h.stripped]
  rfl

/-- What is listed below a walk is entries of the directory that it leads to. -/
theorem mem_children : x ∈ children disk root walk ↔
    ∃ place, disk.canonical (entryPath root walk) = some place ∧ isDir disk.tree place = true ∧
      x ∈ disk.listing place := by
  unfold children SourceDisk.namesIn
  cases hplace : disk.canonical (entryPath root walk) with
  | none => simp
  | some place => by_cases hdir : isDir disk.tree place = true <;> simp [hdir]

theorem isName_of_mem_children (h : x ∈ children disk root walk) :
    FsPath.isName x = true ∧ '/' ∉ x.toList := by
  obtain ⟨place, -, -, hx⟩ := mem_children.mp h
  exact disk.names place x hx

theorem nodup_children (walk : List String) : (children disk root walk).Nodup := by
  unfold children SourceDisk.namesIn
  cases disk.canonical (entryPath root walk) with
  | none => exact List.nodup_nil
  | some place =>
    show (if isDir disk.tree place then disk.listing place else []).Nodup
    split
    · exact disk.nodup place
    · exact List.nodup_nil

/-- A listed entry exists, if only as a link to nothing. -/
theorem symlinkStatus_of_mem_children (h : RootAt disk root top) (hx : x ∈ children disk root walk) :
    (disk.symlinkStatus (entryPath root (walk ++ [x]))).isSome = true := by
  obtain ⟨place, hplace, hdir, hlisted⟩ := mem_children.mp hx
  rw [symlinkStatus_concat h (isName_of_mem_children hx).1, hplace]
  simpa [hdir, look] using disk.mem_listing place x hlisted

/-- A walk leads to a directory or to a file, when it leads anywhere. -/
theorem status_concat (h : RootAt disk root top) (hx : FsPath.isName x = true) :
    disk.status (entryPath root (walk ++ [x])) = none ∨
      disk.status (entryPath root (walk ++ [x])) = some .dir ∨
      ∃ info, disk.status (entryPath root (walk ++ [x])) = some (.file info) := by
  unfold SourceDisk.status
  rw [canonical_concat h hx]
  cases hplace : disk.canonical (entryPath root walk) with
  | none => exact .inl rfl
  | some place =>
    simp only [Option.bind_some]
    cases hdir : isDir disk.tree place with
    | false => exact .inl rfl
    | true =>
      cases hreal : real disk.tree maxLinks (place ++ [x]) with
      | none => exact .inl (by simp)
      | some there => exact .inr (by simpa using look_real hreal)

theorem isDirectory_iff {path : FsPath} : disk.isDirectory path = true ↔
    ∃ place, disk.canonical path = some place ∧ isDir disk.tree place = true := by
  unfold SourceDisk.isDirectory SourceDisk.status FileTree.isDir
  cases disk.canonical path with
  | none => simp
  | some place =>
    simp only [Option.bind_some, Option.some.injEq, exists_eq_left']
    cases look disk.tree place with
    | none => rfl
    | some node => cases node <;> rfl

theorem RootAt.isDirectory (h : RootAt disk root top) :
    disk.canonical (entryPath root []) = some top ∧ disk.isDirectory (entryPath root []) = true := by
  have hcanonical := canonical_entryPath h []
  exact ⟨hcanonical, isDirectory_iff.mpr ⟨top, hcanonical, h.dir⟩⟩

end Walks

/-! ## The ignore files of other directories

The rules that are in force grow as the loop goes on, and those of a directory it has left are still
among them. That they do no harm is this section. -/

section Scope

variable {disk : SourceDisk} {root : FsPath} {walk other : List String}

/-- What is left of the second list is empty only where it is the beginning of the first. -/
theorem mismatch_snd {as bs : List String} :
    (FsPath.mismatch as bs).2 ⊆ bs ∧ ((FsPath.mismatch as bs).2 = [] → bs <+: as) := by
  induction bs generalizing as with
  | nil => cases as <;> exact ⟨fun _ h => h, fun _ => List.nil_prefix⟩
  | cons b bs ih =>
    cases as with
    | nil => exact ⟨fun _ h => h, fun h => absurd h (List.cons_ne_nil b bs)⟩
    | cons a as =>
      by_cases hab : a = b
      · rw [FsPath.mismatch, if_pos hab]
        refine ⟨fun _ h => List.mem_cons_of_mem b (ih.1 h), fun h => ?_⟩
        exact List.cons_prefix_cons.mpr ⟨hab.symm, ih.2 h⟩
      · rw [FsPath.mismatch, if_neg hab]
        exact ⟨fun _ h => h, fun h => absurd h (List.cons_ne_nil b bs)⟩

/-- Where a path is not below the base, the way back up is part of the relative path. -/
theorem up_mem_relativeParts {pre as bs : List String} (hnames : ∀ b ∈ bs, FsPath.isName b = true)
    (h : ¬ bs <+: as) :
    ".." ∈ FsPath.relativeParts ⟨true, pre ++ as⟩ ⟨true, pre ++ bs⟩ := by
  obtain ⟨hsub, hempty⟩ := @mismatch_snd as bs
  unfold FsPath.relativeParts
  simp only [FsPath.mismatch_append]
  have hpos : 0 < ((FsPath.mismatch as bs).2.filter fun part => part ≠ "" ∧ part ≠ ".").length := by
    cases hup : (FsPath.mismatch as bs).2 with
    | nil => exact absurd (hempty hup) h
    | cons b rest =>
      have hb := hnames b (hsub (hup ▸ List.mem_cons_self))
      have hskip : b ≠ "" ∧ b ≠ "." := by
        simp only [FsPath.isName, Bool.and_eq_true, decide_eq_true_eq] at hb
        exact hb.1
      rw [List.filter_cons_of_pos (by simpa using hskip)]
      exact Nat.succ_pos _
  rw [if_neg (fun hback => absurd hback.1 hpos.ne')]
  exact List.mem_append_left _ (List.mem_replicate.mpr ⟨hpos.ne', rfl⟩)

/-- The absolute path of a walk goes on from that of the source directory. -/
theorem exists_absoluteNormalized (root : FsPath) (cwd : List String) :
    ∃ pre, ∀ walk, walk ≠ [] → (∀ x ∈ walk, FsPath.isName x = true) →
      absoluteNormalized cwd (entryPath root walk) = ⟨true, pre ++ walk⟩ := by
  let above := (if root.isAbsolute then [] else cwd) ++ root.stripped.parts
  refine ⟨FsPath.normalParts true [] above, ?_⟩
  intro walk hwalk hnames
  have hpath := @entryPath_eq root walk hwalk
  have habsolute : (entryPath root walk).absolute cwd = some ⟨true, above ++ walk⟩ := by
    rw [hpath, FsPath.absolute]
    have hempty : (FsPath.mk root.isAbsolute (root.stripped.parts ++ walk)).isEmpty = false := by
      simp [FsPath.isEmpty, hwalk]
    rw [hempty]
    cases habs : root.isAbsolute <;> simp [above, habs]
  rw [absoluteNormalized, habsolute, Option.getD_some, FsPath.normal_of_absolute rfl]
  have hup : ".." ∉ walk := fun h => absurd (hnames _ h) (by decide)
  have hnormal : FsPath.normalNames ⟨true, above ++ walk⟩ = FsPath.normalParts true [] above ++ walk := by
    rw [FsPath.normalNames, FsPath.normalParts_append, FsPath.normalParts_of_no_up hup,
      List.reverse_reverse]
    congr 1
    exact List.filter_eq_self.mpr fun x hx => by
      have := hnames x hx
      simp only [FsPath.isName, Bool.and_eq_true, decide_eq_true_eq] at this
      simpa using this.1
  have hends : FsPath.endsInDirectory ⟨true, above ++ walk⟩ = false := by
    obtain ⟨init, last, rfl⟩ := List.eq_nil_or_concat walk |>.resolve_left hwalk
    have hlast := hnames last (by simp)
    simp only [FsPath.isName, Bool.and_eq_true, decide_eq_true_eq] at hlast
    simp [FsPath.endsInDirectory, hlast]
  rw [hnormal, hends]
  simp

theorem addIgnoreFile_eq (rules : List Rule) (path : FsPath) :
    addIgnoreFile disk rules path = rules ++ addIgnoreFile disk [] path := by
  unfold addIgnoreFile
  cases disk.linesOf path <;> simp [addFile]

/-- **A rule matches nothing outside its directory.** -/
theorem matchRule_addIgnoreFile (hwalk : walk ≠ []) (hwalkNames : ∀ x ∈ walk, FsPath.isName x = true) (hother : other ≠ [])
    (hotherNames : ∀ x ∈ other, FsPath.isName x = true) (h : ¬ other <+: walk) {rule : Rule}
    (hrule : rule ∈ addIgnoreFile disk [] (gitignoreIn (entryPath root other))) (isDirectory : Bool) :
    matchRule disk.cwd (entryPath root walk) isDirectory rule = false := by
  obtain ⟨pre, hpre⟩ := exists_absoluteNormalized root disk.cwd
  have hfile : gitignoreIn (entryPath root other) = entryPath root (other ++ [".gitignore"]) := by
    have hparts : (entryPath root other).stripped = entryPath root other := by
      obtain ⟨init, last, rfl⟩ := List.eq_nil_or_concat other |>.resolve_left hother
      have hlast := hotherNames last (by simp)
      simp only [FsPath.isName, Bool.and_eq_true, decide_eq_true_eq] at hlast
      have : (entryPath root (init.concat last)).trailing = false := by
        simp [FsPath.trailing, entryPath_eq, hlast]
      rw [FsPath.stripped, this]
      rfl
    rw [gitignoreIn, FsPath.join, hparts, entryPath_eq hother, entryPath_eq (by simp)]
    simp
  have hbase : rule.base = ⟨true, pre ++ other⟩ := by
    unfold addIgnoreFile at hrule
    cases hlines : disk.linesOf (gitignoreIn (entryPath root other)) with
    | none => simp [hlines] at hrule
    | some lines =>
      simp only [hlines, addFile, List.nil_append, List.mem_filterMap] at hrule
      obtain ⟨line, -, hline⟩ := hrule
      have hnames : ∀ x ∈ other ++ [".gitignore"], FsPath.isName x = true := by
        intro x hx
        rcases List.mem_append.mp hx with hx | hx
        · exact hotherNames x hx
        · obtain rfl := List.mem_singleton.mp hx
          decide
      rw [base_of_lineRule hline, hfile, hpre _ (by simp) hnames, FsPath.parent, ← List.append_assoc,
        List.dropLast_concat]
  have hrelative : lexicallyRelative (absoluteNormalized disk.cwd (entryPath root walk)) rule.base =
      ⟨false, FsPath.relativeParts ⟨true, pre ++ walk⟩ ⟨true, pre ++ other⟩⟩ := by
    rw [hbase, hpre walk hwalk hwalkNames, lexicallyRelative, if_neg (not_not.mpr rfl)]
  have hnone : pathRelativeToRule disk.cwd (entryPath root walk) rule.base = none := by
    have hempty : rule.base.isEmpty = false := by rw [hbase]; rfl
    rw [pathRelativeToRule, hempty, hrelative]
    simp only [Bool.false_eq_true, if_false]
    exact if_pos (.inr (.inr (up_mem_relativeParts hotherNames h)))
  rw [matchRule, Rule.candidates, hnone]
  rfl

end Scope

/-! ## The names that are given

A relative name is the walk with a text in front that is the same for all walks of one source, and
slashes between. Names have no slashes in them, so the walk can be read back. -/

section Names

variable {disk : SourceDisk} {root : FsPath} {walk other : List String}

def Names (walk : List String) : Prop := ∀ x ∈ walk, FsPath.isName x = true ∧ '/' ∉ x.toList

theorem relativeParts_source (root : FsPath) : ∃ pre, ∀ walk, walk ≠ [] → Names walk →
    FsPath.relativeParts (entryPath root walk) (baseOf root) = pre ++ walk := by
  -- behind the common beginning stands the way down, and nothing leads back up
  have hend : ∀ (p base : FsPath) (rest up : List String), FsPath.mismatch p.parts base.parts = (rest, up) →
      (∀ part ∈ up, part = ".") → rest ≠ [] → rest ≠ [""] → FsPath.relativeParts p base = rest := by
    intro p base rest up hmismatch hup hrest hslash
    have hback : (up.filter fun part => part ≠ "" ∧ part ≠ ".").length = 0 := by
      rw [List.length_eq_zero_iff, List.filter_eq_nil_iff]
      intro part hpart
      simp [hup part hpart]
    rw [FsPath.relativeParts, hmismatch]
    simp only [hback, hrest, hslash, or_self, and_false, if_false, List.replicate_zero, List.nil_append]
  have hne : ∀ {walk : List String}, walk ≠ [] → Names walk → walk ≠ [""] := by
    rintro walk - hnames rfl
    exact absurd (hnames "" (by simp)).1 (by decide)
  by_cases hbase : root.parent.isEmpty = true
  · -- the source is named by one part, or by none
    have hbaseOf : baseOf root = { parts := ["."] } := if_pos hbase
    obtain ⟨habs, hparts⟩ : root.isAbsolute = false ∧ root.parts.dropLast = [] := by
      simpa [FsPath.isEmpty, FsPath.parent] using hbase
    by_cases hskip : root.stripped.parts = [] ∨ root.stripped.parts = ["."]
    · refine ⟨[], fun walk hwalk hnames => ?_⟩
      have hhead : ∀ {walk : List String}, walk ≠ [] → Names walk → FsPath.mismatch walk ["."] = (walk, ["."]) := by
        intro walk hwalk hnames
        cases walk with
        | nil => exact absurd rfl hwalk
        | cons x rest =>
          have hx : x ≠ "." := by
            rintro rfl
            exact absurd (hnames "." (by simp)).1 (by decide)
          rw [FsPath.mismatch, if_neg hx]
      have hparts : (entryPath root walk).parts = root.stripped.parts ++ walk := by
        rw [entryPath_eq hwalk]
      rcases hskip with hnil | hdot
      · refine hend _ _ walk ["."] ?_ (by simp) hwalk (hne hwalk hnames)
        rw [hparts, hbaseOf, hnil]
        exact hhead hwalk hnames
      · refine hend _ _ walk [] ?_ (by simp) hwalk (hne hwalk hnames)
        rw [hparts, hbaseOf, hdot]
        cases walk <;> simp [FsPath.mismatch]
    · rw [not_or] at hskip
      have hone : ∃ last, root.stripped.parts = [last] ∧ last ≠ "." := by
        have hstripped : root.stripped.parts = root.parts ∨ root.stripped.parts = root.parts.dropLast := by
          unfold FsPath.stripped
          split <;> simp
        have hsame := hstripped.resolve_right (hparts ▸ hskip.1)
        cases hlist : root.parts with
        | nil => exact absurd (hsame.trans hlist) hskip.1
        | cons last rest =>
          have hrest : rest = [] := by
            rw [hlist] at hparts
            cases rest with
            | nil => rfl
            | cons => simp at hparts
          refine ⟨last, by rw [hsame, hlist, hrest], ?_⟩
          rintro rfl
          exact hskip.2 (by rw [hsame, hlist, hrest])
      obtain ⟨last, hlast, hdot⟩ := hone
      refine ⟨[last], fun walk hwalk hnames => ?_⟩
      refine hend _ _ _ ["."] ?_ (by simp) (by simp) (by simp [hwalk])
      rw [entryPath_eq hwalk, hbaseOf, hlast]
      show FsPath.mismatch (last :: walk) ["."] = _
      rw [FsPath.mismatch, if_neg hdot]
      rfl
  · have hbaseOf : baseOf root = root.parent := if_neg hbase
    by_cases htrailing : root.trailing = true
    · -- the last part is the trailing slash, and the base is the source itself
      refine ⟨[], fun walk hwalk hnames => ?_⟩
      refine hend _ _ walk [] ?_ (by simp) hwalk (hne hwalk hnames)
      rw [entryPath_eq hwalk, hbaseOf, FsPath.stripped, if_pos htrailing]
      have := FsPath.mismatch_append root.parts.dropLast walk []
      rw [List.append_nil] at this
      rw [FsPath.parent, this]
      cases walk <;> rfl
    · cases hlist : root.parts.getLast? with
      | none =>
        have hparts : root.parts = [] := List.getLast?_eq_none_iff.mp hlist
        refine ⟨[], fun walk hwalk hnames => ?_⟩
        refine hend _ _ walk [] ?_ (by simp) hwalk (hne hwalk hnames)
        rw [entryPath_eq hwalk, hbaseOf, FsPath.stripped, if_neg htrailing, FsPath.parent, hparts]
        cases walk <;> rfl
      | some last =>
        refine ⟨[last], fun walk hwalk hnames => ?_⟩
        refine hend _ _ _ [] ?_ (by simp) (by simp) (by simp [hwalk])
        rw [entryPath_eq hwalk, hbaseOf, FsPath.stripped, if_neg htrailing, FsPath.parent]
        have hsplit := List.dropLast_append_getLast? last hlist
        have := FsPath.mismatch_append root.parts.dropLast ([last] ++ walk) []
        rw [List.append_nil, ← List.append_assoc, hsplit] at this
        rw [this]
        rfl

theorem intercalate_append (pre : List (List Char)) {as : List (List Char)} (h : as ≠ []) :
    ['/'].intercalate (pre ++ as) = pre.flatMap (· ++ ['/']) ++ ['/'].intercalate as := by
  induction pre with
  | nil => rfl
  | cons p pre ih =>
    obtain ⟨q, rest, hrest⟩ := List.exists_cons_of_ne_nil (show pre ++ as ≠ [] by simp [h])
    rw [List.cons_append, List.flatMap_cons, List.append_assoc, ← ih, hrest]
    simp [List.intercalate]

theorem toList_source (pre : List String) (hwalk : walk ≠ []) :
    ("/".intercalate (pre ++ walk)).toList =
      (pre.map String.toList).flatMap (· ++ ['/']) ++ ['/'].intercalate (walk.map String.toList) := by
  rw [String.toList_intercalate, List.map_append]
  exact intercalate_append _ (by simpa using hwalk)

/-- Walks of one source are told apart by their names. -/
theorem intercalate_inj {pre : List String} (hwalk : walk ≠ []) (hother : other ≠ [])
    (hnames : Names walk) (hothers : Names other)
    (h : "/".intercalate (pre ++ walk) = "/".intercalate (pre ++ other)) : walk = other := by
  have hlist := congrArg String.toList h
  rw [toList_source pre hwalk, toList_source pre hother] at hlist
  have hsplit := congrArg (List.splitOn '/') (List.append_cancel_left hlist)
  have hback : ∀ {walk : List String}, walk ≠ [] → Names walk →
      (['/'].intercalate (walk.map String.toList)).splitOn '/' = walk.map String.toList := by
    intro walk hwalk hnames
    refine List.splitOn_intercalate '/' ?_ (by simpa using hwalk)
    intro l hl
    obtain ⟨x, hx, rfl⟩ := List.mem_map.mp hl
    exact (hnames x hx).2
  rw [hback hwalk hnames, hback hother hothers] at hsplit
  exact List.map_injective_iff.mpr (fun _ _ h => String.toList_injective h) hsplit

/-- The name of a walk ends in no slash. -/
theorem getLast?_intercalate {pre : List String} (hwalk : walk ≠ []) (hnames : Names walk) :
    ("/".intercalate (pre ++ walk)).toList.getLast? ≠ some '/' := by
  obtain ⟨init, last, rfl⟩ := List.eq_nil_or_concat walk |>.resolve_left hwalk
  obtain ⟨hname, hslash⟩ := hnames last (by simp)
  have hne : last.toList ≠ [] := by
    simp only [FsPath.isName, Bool.and_eq_true, decide_eq_true_eq] at hname
    simpa using hname.1.1
  have hsplit : pre ++ init.concat last = (pre ++ init) ++ [last] := by simp
  rw [hsplit, toList_source (pre ++ init) (by simp)]
  have hlast : ['/'].intercalate ([last].map String.toList) = last.toList := by
    simp [List.intercalate]
  rw [hlast, List.getLast?_append_of_ne_nil _ hne]
  intro h
  exact hslash (List.mem_of_getLast? h)

/-- The relative name of a walk. -/
theorem relativeLexical_source (disk : SourceDisk) (root : FsPath) : ∃ pre, ∀ walk, walk ≠ [] →
    Names walk → relativeLexical disk (entryPath root walk) (baseOf root) =
      "/".intercalate (pre ++ walk) := by
  obtain ⟨pre, hpre⟩ := relativeParts_source root
  refine ⟨pre, fun walk hwalk hnames => ?_⟩
  have habs : (entryPath root walk).isAbsolute = (baseOf root).isAbsolute := by
    rw [entryPath_eq hwalk, baseOf]
    by_cases hbase : root.parent.isEmpty = true
    · rw [if_pos hbase]
      simp only [FsPath.isEmpty, FsPath.parent, Bool.and_eq_true, Bool.not_eq_true'] at hbase
      exact hbase.1
    · rw [if_neg hbase]
      rfl
  have hrel : lexicallyRelative (entryPath root walk) (baseOf root) = { parts := pre ++ walk } := by
    rw [lexicallyRelative, if_neg (not_not.mpr habs), hpre walk hwalk hnames]
  have hempty : (FsPath.mk false (pre ++ walk)).isEmpty = false := by
    simp [FsPath.isEmpty, hwalk]
  rw [relativeLexical, hrel]
  simp only [hempty, Bool.false_eq_true, if_false, FsPath.text]
  simp

end Names

end Kiko.Transfer.FollowLinks
