import Kiko.Transfer.Wildmatch
import Kiko.Lib.LexicalPath

/-!
# Ignored paths (`transfer/gitignore`)

A rule is a line of a file, with the directory of the file; the last rule that matches a path
decides whether it is ignored. What is matched is not the path alone: every directory on the
way to it is tried too, and one match is enough.

A rule that ignores a directory so ignores what is below it, which is what a walk that does not
enter the directory relies on, too. But a negated rule that takes the directory back takes back
everything below it with it, also what an earlier rule says of a file by name. What a rule is
tried on before the path itself is what it is tried on for the directory of the path
(`Spelled.parent`), so where that directory is not ignored, only such a negated rule can part the
decision from what the last rule that matches the path says: `ignored_iff_last`.

The decision is stated twice, once as the code computes it and once from the rules that match the
path itself, and the two are compared. What is between them is one pattern of rules and no fault
of the matcher: a negated rule for a directory, in force for the directory, standing behind a
rule for a file in it. That pattern is found on the rules (`TakenBack`), so whether it occurs can
be told without asking the code what it decides.
-/

set_option autoImplicit false

namespace Kiko.GitIgnore

open Lexical
open FsPath (isName)

/-! ## Rules

Blanks at the end of a line count when they are escaped, so the line is trimmed from its end,
backwards. -/

structure Rule where
  base : FsPath
  pattern : String
  directoryOnly : Bool := false
  negated : Bool := false
  anchored : Bool := false
deriving DecidableEq, Repr

/-- `trailing_character_is_escaped`, for what stands before the character, the last first. -/
def isEscaped (before : List Char) : Bool := (before.takeWhile (· = '\\')).length % 2 = 1

/-- The loop of `trim_pattern_line`, on the reversed line. -/
def trimBlanks : List Char → List Char
  | [] => []
  | c :: before => if (c = ' ' ∨ c = '\t') ∧ !isEscaped before then trimBlanks before else c :: before

/-- `trim_pattern_line`. -/
def trimPatternLine (line : List Char) : List Char :=
  let line := if line.getLast? = some '\r' then line.dropLast else line
  (trimBlanks line.reverse).reverse

/-- The rule of a line, if it is one: `add_line`. -/
def lineRule (line : String) (base : FsPath) : Option Rule :=
  let pattern := trimPatternLine line.toList
  if pattern = [] ∨ pattern.head? = some '#' then none
  else
    let negated : Bool := pattern.head? = some '!'
    let pattern := if negated then pattern.tail else pattern
    let directoryOnly : Bool :=
      pattern.getLast? = some '/' && !isEscaped pattern.dropLast.reverse
    let pattern := if directoryOnly then pattern.dropLast else pattern
    let anchored : Bool := pattern.head? = some '/'
    let pattern := if anchored then pattern.tail else pattern
    if pattern = [] then none
    else some {
      base := base
      pattern := String.ofList pattern
      directoryOnly := directoryOnly
      negated := negated
      anchored := anchored }

/-- `absolute_normalized`. -/
def absoluteNormalized (cwd : List String) (path : FsPath) : FsPath :=
  ((path.absolute cwd).getD path).normal

/-- `add_file`, for the lines of the file. -/
def addFile (cwd : List String) (rules : List Rule) (path : FsPath) (lines : List String) : List Rule :=
  rules ++ lines.filterMap fun line => lineRule line (absoluteNormalized cwd path).parent

example : lineRule "!/build/ " { parts := [] } =
    some { base := { parts := [] }, pattern := "build", directoryOnly := true, negated := true,
           anchored := true } := by decide

/-! ## What a rule is matched against

A rule with a directory is tried on what is left of the path behind that directory; one without
is tried on the text of the path. In both cases on every beginning that ends at a slash, and last
on the whole. -/

/-- `lexically_relative`, for a normal base. -/
def lexicallyRelative (path base : FsPath) : FsPath :=
  if path.isAbsolute ≠ base.isAbsolute then { parts := [] } else { parts := path.relativeParts base }

/-- `path_relative_to_rule`. -/
def pathRelativeToRule (cwd : List String) (path base : FsPath) : Option String :=
  if base.isEmpty then some path.text
  else
    let relative := lexicallyRelative (absoluteNormalized cwd path) base
    if relative.parts = [] ∨ relative.parts = ["."] ∨ ".." ∈ relative.parts then none
    else some relative.text

/-- The loop of `path_candidates`, over what stands between the slashes. -/
def candidatesFrom (isDirectory : Bool) : (walked : String) → List String → List (String × Bool)
  | _, [] => []
  | walked, component :: rest =>
    if component = "" then candidatesFrom isDirectory walked rest
    else
      let walked' := (if walked = "" then "" else walked ++ "/") ++ component
      (walked', rest ≠ [] || isDirectory) :: candidatesFrom isDirectory walked' rest

/-- `path_candidates`: the path and the directories on the way to it, the path last. -/
def pathCandidates (path : String) (isDirectory : Bool) : List (String × Bool) :=
  candidatesFrom isDirectory "" ((path.toList.splitOn '/').map String.ofList)

/-- The rule matches a candidate: one round of `match_rule`. -/
def Rule.matchesCandidate (rule : Rule) (candidate : String × Bool) : Bool :=
  if rule.directoryOnly && !candidate.2 then false
  else if rule.anchored || rule.pattern.toList.contains '/' then
    wildmatch (spanOf rule.pattern) (spanOf candidate.1)
  else
    let component := String.ofList (candidate.1.toList.reverse.takeWhile (· ≠ '/')).reverse
    wildmatch (spanOf rule.pattern) (spanOf component)

section Decision

variable (cwd : List String) (rules : List Rule) (path : FsPath) (isDirectory : Bool)

/-- What the rule is tried on. -/
def Rule.candidates (rule : Rule) : List (String × Bool) :=
  match pathRelativeToRule cwd path rule.base with
  | none => []
  | some relative => pathCandidates relative isDirectory

/-- `match_rule`. -/
def matchRule (rule : Rule) : Bool := (rule.candidates cwd path isDirectory).any rule.matchesCandidate

/-- `ignored`. -/
def ignored : Bool :=
  rules.foldl (fun ignored rule =>
    if matchRule cwd path isDirectory rule then !rule.negated else ignored) false

/-- The rule matches the path itself, and not only a directory on the way to it. -/
def matchesItself (rule : Rule) : Bool :=
  (rule.candidates cwd path isDirectory).getLast?.any rule.matchesCandidate

/-- The last rule that `f` holds of. -/
def lastRule (f : Rule → Bool) : Option Rule := rules.reverse.find? f

/-- The rule matches a directory on the way to the path. -/
def matchesOnWay (rule : Rule) : Bool :=
  (rule.candidates cwd path isDirectory).dropLast.any rule.matchesCandidate

end Decision

/-! ## What is tried before the path

All candidates but the last are those of the directory the path is in. It is the fact the
comparison rests on, and it needs the path to be spelled without detours. -/

variable {cwd : List String} {rules : List Rule} {path : FsPath} {isDirectory : Bool} {rule : Rule}

/-- The candidates of a longer path go on behind those of its beginning. -/
theorem candidatesFrom_append {as : List String} (hnames : ∀ x ∈ as, x ≠ "") (isDirectory : Bool) (walked : String)
    (bs : List String) : ∃ walked', candidatesFrom isDirectory walked (as ++ bs) =
      candidatesFrom (bs ≠ [] || isDirectory) walked as ++ candidatesFrom isDirectory walked' bs := by
  induction as generalizing walked with
  | nil => exact ⟨walked, rfl⟩
  | cons a as ih =>
    have ha := hnames a List.mem_cons_self
    obtain ⟨walked', hrest⟩ := ih (fun x hx => hnames x (List.mem_cons_of_mem _ hx))
      ((if walked = "" then "" else walked ++ "/") ++ a)
    refine ⟨walked', ?_⟩
    rw [List.cons_append, candidatesFrom, candidatesFrom, if_neg ha, if_neg ha]
    dsimp only
    rw [hrest, List.cons_append]
    congr 2
    cases as <;> simp

/-- The last name, with a slash behind it or without, is one candidate. -/
theorem candidatesFrom_last {last : String} {slash : List String} (hlast : last ≠ "") (hslash : slash = [] ∨ slash = [""])
    (isDirectory : Bool) (walked : String) :
    ∃ candidate, candidatesFrom isDirectory walked (last :: slash) = [candidate] := by
  rcases hslash with rfl | rfl
  · exact ⟨_, by rw [candidatesFrom, if_neg hlast]; rfl⟩
  · exact ⟨_, by rw [candidatesFrom, if_neg hlast]; rfl⟩

/-- What stands between the slashes of a text is what it was put together from. -/
theorem pathCandidates_intercalate {parts : List String} (hne : parts ≠ []) (hslash : ∀ x ∈ parts, '/' ∉ x.toList) :
    pathCandidates ("/".intercalate parts) isDirectory = candidatesFrom isDirectory "" parts := by
  rw [pathCandidates, String.toList_intercalate]
  show candidatesFrom _ _ (((['/'].intercalate _).splitOn '/').map _) = _
  rw [List.splitOn_intercalate '/' ?_ (by simpa using hne), List.map_map]
  · congr 1
    simp
  · intro l hl
    obtain ⟨x, hx, rfl⟩ := List.mem_map.mp hl
    exact hslash x hx

/-- The text of an absolute path begins with a slash, which makes no candidate. -/
theorem pathCandidates_absolute {parts : List String} (hne : parts ≠ []) (hslash : ∀ x ∈ parts, '/' ∉ x.toList) :
    pathCandidates (FsPath.mk true parts).text isDirectory = candidatesFrom isDirectory "" parts := by
  obtain ⟨first, rest, rfl⟩ := List.exists_cons_of_ne_nil hne
  have htext : (FsPath.mk true (first :: rest)).text = "/".intercalate ("" :: first :: rest) := by
    simp [FsPath.text, String.intercalate_cons_cons]
  rw [htext, pathCandidates_intercalate (by simp)]
  · rw [candidatesFrom, if_pos rfl]
  · intro x hx
    rcases List.mem_cons.mp hx with rfl | hx
    · simp
    · exact hslash x hx

theorem pathCandidates_relative {parts : List String} (hne : parts ≠ []) (hslash : ∀ x ∈ parts, '/' ∉ x.toList) :
    pathCandidates (FsPath.mk false parts).text isDirectory = candidatesFrom isDirectory "" parts := by
  have htext : (FsPath.mk false parts).text = "/".intercalate parts := by simp [FsPath.text]
  rw [htext, pathCandidates_intercalate hne hslash]

/-- What a rule that has a directory is tried on, by where the path goes apart from it. -/
theorem candidates_of_mismatch {parts rest up : List String} (hbase : rule.base.isEmpty = false)
    (hpath : absoluteNormalized cwd path = ⟨true, parts⟩) (hparts : FsPath.mismatch parts rule.base.parts = (rest, up))
    (hslash : ∀ x ∈ rest, '/' ∉ x.toList) (hup : ".." ∉ rest) (hdot : rest ≠ ["."]) :
    rule.candidates cwd path isDirectory =
      if rule.base.isAbsolute = true ∧ (up.filter fun part => part ≠ "" ∧ part ≠ ".") = [] ∧ rest ≠ [] ∧ rest ≠ [""]
      then candidatesFrom isDirectory "" rest else [] := by
  unfold Rule.candidates pathRelativeToRule
  rw [hbase, if_neg (by simp), hpath]
  unfold lexicallyRelative FsPath.relativeParts
  dsimp only
  rw [hparts]
  dsimp only
  generalize up.filter (fun part => decide (part ≠ "" ∧ part ≠ ".")) = back
  cases habs : rule.base.isAbsolute with
  | false => simp
  | true =>
    cases back with
    | nil =>
      by_cases hrest : rest = [] ∨ rest = [""]
      · have hnone : ¬ (rest ≠ [] ∧ rest ≠ [""]) := fun h => hrest.elim h.1 h.2
        simp only [hrest, hnone]
        simp
      · obtain ⟨hnil, hone⟩ := not_or.mp hrest
        have htext : pathCandidates _ isDirectory = _ := pathCandidates_relative hnil hslash
        simp [hnil, hone, hup, hdot, htext]
    | cons part back =>
      -- the way back up is part of the relative path
      simp [List.replicate_succ]

/-- The directory of a path is its own absolute normal form. -/
theorem absoluteNormalized_names {parts : List String} (hnames : ∀ x ∈ parts, isName x = true) :
    absoluteNormalized cwd ⟨true, parts⟩ = ⟨true, parts⟩ := by
  rw [absoluteNormalized, FsPath.absolute, if_neg (by simp [FsPath.isEmpty]), if_pos rfl]
  exact FsPath.normal_names hnames

section Parent

variable {above slash : List String} {last : String}

/-- The absolute path goes through names, and may end in a slash. -/
structure Spelled (cwd : List String) (path : FsPath) (above : List String) (last : String) (slash : List String) :
    Prop where
  names : ∀ x ∈ above ++ [last], isName x = true ∧ '/' ∉ x.toList
  ends : slash = [] ∨ slash = [""]
  normal : absoluteNormalized cwd path = ⟨true, above ++ [last] ++ slash⟩

theorem Spelled.name (h : Spelled cwd path above last slash) {x : String} (hx : x ∈ above ++ [last]) :
    x ≠ "" ∧ x ≠ "." ∧ x ≠ ".." := by
  have hname := (h.names x hx).1
  simpa [isName, and_assoc] using hname

theorem Spelled.free (h : Spelled cwd path above last slash) {x : String} (hx : x ∈ above ++ [last] ++ slash) :
    '/' ∉ x.toList ∧ x ≠ "." ∧ x ≠ ".." := by
  rcases List.mem_append.mp hx with hx | hx
  · exact ⟨(h.names x hx).2, (h.name hx).2⟩
  · rcases h.ends with rfl | rfl
    · exact absurd hx List.not_mem_nil
    · obtain rfl := List.mem_singleton.mp hx
      simp

/-- The last candidate is the path itself. -/
theorem Spelled.dropLast (h : Spelled cwd path above last slash) {rest : List String} (hsub : rest ⊆ above)
    (isDirectory : Bool) :
    (candidatesFrom isDirectory "" (rest ++ last :: slash)).dropLast = candidatesFrom true "" rest := by
  obtain ⟨walked', happend⟩ := candidatesFrom_append
    (fun x (hx : x ∈ rest) => (h.name (List.mem_append_left _ (hsub hx))).1) isDirectory "" (last :: slash)
  obtain ⟨candidate, hone⟩ := candidatesFrom_last (h.name (show last ∈ _ by simp)).1 h.ends isDirectory walked'
  rw [happend, hone, List.dropLast_concat]
  simp

/-- A rule without a directory is tried on the whole path. -/
theorem Spelled.parent_of_isEmpty (h : Spelled cwd path above last slash) (hempty : rule.base.isEmpty = true)
    (hself : absoluteNormalized cwd path = path) :
    (rule.candidates cwd path isDirectory).dropLast = candidatesFrom true "" above ∧
      (above ≠ [] → rule.candidates cwd ⟨true, above⟩ true = candidatesFrom true "" above) := by
  have htext : path.text = (FsPath.mk true (above ++ [last] ++ slash)).text :=
    congrArg FsPath.text (hself.symm.trans h.normal)
  unfold Rule.candidates pathRelativeToRule
  rw [hempty, if_pos rfl, if_pos rfl, htext]
  refine ⟨?_, fun hne => pathCandidates_absolute hne fun x hx => (h.free (by simp [hx])).1⟩
  dsimp only
  rw [pathCandidates_absolute (by simp) fun x hx => (h.free hx).1, List.append_assoc]
  exact h.dropLast (List.Subset.refl _) isDirectory

/-- What the path begins with ends above its last name, or has that name in it and leaves nothing
    but the slash. -/
theorem Spelled.split (h : Spelled cwd path above last slash) {pre rest : List String}
    (hleft : above ++ [last] ++ slash = pre ++ rest) :
    (∃ inside, above = pre ++ inside ∧ rest = inside ++ last :: slash) ∨
      ((rest = [] ∨ rest = [""]) ∧ ∃ more, pre = above ++ last :: more) := by
  rw [List.append_assoc] at hleft
  rcases List.append_eq_append_iff.mp hleft with ⟨behind, hpre, hrest⟩ | ⟨inside, habove, hrest⟩
  · cases behind with
    | nil => exact .inl ⟨[], by simp [hpre], hrest.symm⟩
    | cons b more =>
      obtain ⟨rfl, hslash⟩ := List.cons.inj hrest
      refine .inr ⟨?_, more, hpre⟩
      rcases h.ends with rfl | rfl
      · exact .inl (List.append_eq_nil_iff.mp hslash.symm).2
      · cases more with
        | nil => exact .inr hslash.symm
        | cons m more => exact .inl (List.append_eq_nil_iff.mp (List.cons.inj hslash).2.symm).2
  · exact .inl ⟨inside, habove, hrest⟩

/-- A rule that has a directory is tried on what stands below it. -/
theorem Spelled.parent_of_base (h : Spelled cwd path above last slash) (hempty : rule.base.isEmpty = false) :
    ∃ inside, inside ⊆ above ∧
      ((rule.candidates cwd path isDirectory).dropLast = candidatesFrom true "" inside) ∧
      (above ≠ [] → rule.candidates cwd ⟨true, above⟩ true = candidatesFrom true "" inside) := by
  obtain ⟨pre, hleft, hright, happart⟩ := FsPath.exists_mismatch (above ++ [last] ++ slash) rule.base.parts
  generalize hrest : (FsPath.mismatch (above ++ [last] ++ slash) rule.base.parts).1 = rest at hleft happart
  generalize hup : (FsPath.mismatch (above ++ [last] ++ slash) rule.base.parts).2 = up at hright happart
  have hsub : rest ⊆ above ++ [last] ++ slash := hleft ▸ List.subset_append_right ..
  have hwhole : rule.candidates cwd path isDirectory = _ :=
    candidates_of_mismatch hempty h.normal (Prod.ext hrest hup) (fun x hx => (h.free (hsub hx)).1)
      (fun hmem => (h.free (hsub hmem)).2.2 rfl)
      (fun heq => (h.free (hsub (heq ▸ List.mem_singleton_self _))).2.1 rfl)
  have hparent {restAbove upAbove : List String}
      (hmismatch : FsPath.mismatch above rule.base.parts = (restAbove, upAbove)) (hsubAbove : restAbove ⊆ above) :
      rule.candidates cwd ⟨true, above⟩ true = _ :=
    candidates_of_mismatch hempty (absoluteNormalized_names fun x hx => (h.names x (List.mem_append_left _ hx)).1)
      hmismatch (fun x hx => (h.free (by simp [hsubAbove hx])).1)
      (fun hmem => (h.free (show ".." ∈ _ by simp [hsubAbove hmem])).2.2 rfl)
      (fun heq => (h.free (show "." ∈ _ by simp [hsubAbove (heq ▸ List.mem_singleton_self _)])).2.1 rfl)
  rcases h.split hleft with ⟨inside, habove, hrest⟩ | ⟨hnone, more, hpre⟩
  · -- the rule's directory is above the path, or goes apart from it above its last name
    have hsubAbove : inside ⊆ above := habove ▸ List.subset_append_right ..
    have hinside : FsPath.mismatch above rule.base.parts = (inside, up) := by
      rw [habove, hright, FsPath.mismatch_append]
      refine FsPath.mismatch_of_head fun a ha => happart a ?_
      rw [hrest]
      cases inside with
      | nil => cases ha
      | cons b inside => exact ha
    have hmore : rest ≠ [] ∧ rest ≠ [""] := by
      refine ⟨by simp [hrest], fun heq => (h.name (show last ∈ above ++ [last] by simp)).1 ?_⟩
      have hmem : last ∈ rest := by simp [hrest]
      simpa [heq] using hmem
    by_cases hbelow : rule.base.isAbsolute = true ∧ (up.filter fun part => part ≠ "" ∧ part ≠ ".") = []
    · refine ⟨inside, hsubAbove, ?_, fun hne => ?_⟩
      · rw [hwhole, if_pos ⟨hbelow.1, hbelow.2, hmore⟩, hrest]
        exact h.dropLast hsubAbove isDirectory
      · rw [hparent hinside hsubAbove]
        split_ifs with hif
        · rfl
        · have hfull : inside ≠ [""] := fun heq => (h.name (show "" ∈ _ by simp [habove, heq])).1 rfl
          obtain rfl : inside = [] := by
            by_contra hne
            exact hif ⟨hbelow.1, hbelow.2, hne, hfull⟩
          rfl
    · refine ⟨[], List.nil_subset _, ?_, fun hne => ?_⟩
      · rw [hwhole, if_neg fun h => hbelow ⟨h.1, h.2.1⟩]
        rfl
      · rw [hparent hinside hsubAbove, if_neg fun h => hbelow ⟨h.1, h.2.1⟩]
        rfl
  · -- the path is not below the rule's directory
    refine ⟨[], List.nil_subset _, ?_, fun hne => ?_⟩
    · rw [hwhole, if_neg fun h => hnone.elim h.2.2.1 h.2.2.2]
      rfl
    · have habove : FsPath.mismatch above rule.base.parts = ([], last :: more ++ up) := by
        have hbase : rule.base.parts = above ++ (last :: more ++ up) := by
          rw [hright, hpre, List.append_assoc]
        have happend := FsPath.mismatch_append above [] (last :: more ++ up)
        rwa [List.append_nil, ← hbase] at happend
      rw [hparent habove (List.nil_subset _), if_neg fun h => h.2.2.1 rfl]
      rfl

/-- **What a rule is tried on before the path is what it is tried on for the directory of the path.** -/
theorem Spelled.parent (h : Spelled cwd path above last slash)
    (hbase : rule.base.isEmpty = true → absoluteNormalized cwd path = path) :
    ∃ inside, inside ⊆ above ∧ (rule.candidates cwd path isDirectory).dropLast = candidatesFrom true "" inside ∧
      (above ≠ [] → rule.candidates cwd ⟨true, above⟩ true = candidatesFrom true "" inside) := by
  cases hempty : rule.base.isEmpty with
  | true => exact ⟨above, List.Subset.refl _, h.parent_of_isEmpty hempty (hbase hempty)⟩
  | false => exact h.parent_of_base hempty

end Parent

/-- Nothing is tried on the root. -/
theorem candidates_of_root (hparts : (absoluteNormalized cwd path).parts = [])
    (hbase : rule.base.isEmpty = true → absoluteNormalized cwd path = path) :
    rule.candidates cwd path isDirectory = [] := by
  unfold Rule.candidates pathRelativeToRule
  cases hempty : rule.base.isEmpty with
  | true =>
    rw [if_pos rfl]
    rw [hbase hempty] at hparts
    obtain ⟨isAbsolute, parts⟩ := path
    obtain rfl : parts = [] := hparts
    cases isAbsolute <;> cases isDirectory <;> decide
  | false =>
    rw [if_neg (by simp)]
    unfold lexicallyRelative FsPath.relativeParts
    have hmismatch : FsPath.mismatch [] rule.base.parts = ([], rule.base.parts) := rfl
    rw [hparts, hmismatch]
    dsimp only
    generalize rule.base.parts.filter (fun part => decide (part ≠ "" ∧ part ≠ ".")) = back
    cases back with
    | nil => by_cases h : (absoluteNormalized cwd path).isAbsolute = rule.base.isAbsolute <;> simp [h]
    | cons part back =>
      by_cases h : (absoluteNormalized cwd path).isAbsolute = rule.base.isAbsolute <;> simp [h, List.replicate_succ]

/-- The directory that the program runs in, from its text. -/
def cwdOf (here : String) : List String := (FsPath.ofString here).parts

/-- A path from its text is the root or goes through names. -/
theorem spelled_of_text (here text : String) :
    (absoluteNormalized (cwdOf here) (.ofString text)).parts = [] ∨
      ∃ above last slash, Spelled (cwdOf here) (.ofString text) above last slash := by
  obtain ⟨isAbsolute, parts, hpath⟩ : ∃ isAbsolute parts, FsPath.ofString text = ⟨isAbsolute, parts⟩ := ⟨_, _, rfl⟩
  have hfree : ∀ x ∈ parts, '/' ∉ x.toList := by
    intro x hx
    exact FsPath.slash_notMem_ofString (show x ∈ (FsPath.ofString text).parts by rwa [hpath])
  rw [hpath]
  cases hempty : (FsPath.mk isAbsolute parts).isEmpty with
  | true =>
    left
    simp only [FsPath.isEmpty, Bool.and_eq_true, Bool.not_eq_true', List.isEmpty_iff] at hempty
    obtain ⟨rfl, rfl⟩ := hempty
    rfl
  | false =>
    obtain ⟨whole, habsolute, hwhole⟩ : ∃ whole, (FsPath.mk isAbsolute parts).absolute (cwdOf here) =
        some ⟨true, whole⟩ ∧ ∀ x ∈ whole, '/' ∉ x.toList := by
      unfold FsPath.absolute
      rw [hempty, if_neg (by simp)]
      cases isAbsolute with
      | true => exact ⟨parts, rfl, hfree⟩
      | false =>
        refine ⟨_, rfl, fun x hx => ?_⟩
        rcases List.mem_append.mp hx with hx | hx
        · exact FsPath.slash_notMem_ofString hx
        · exact hfree x hx
    -- the normal form goes through the same names
    have hnormal : absoluteNormalized (cwdOf here) ⟨isAbsolute, parts⟩ =
        (FsPath.mk true whole).normal := by
      rw [absoluteNormalized, habsolute]
      rfl
    rw [FsPath.normal_of_absolute rfl] at hnormal
    cases hlast : (FsPath.mk true whole).normalNames.getLast? with
    | none =>
      left
      rw [hnormal, List.getLast?_eq_none_iff.mp hlast]
      simp
    | some last =>
      right
      have hsplit := List.dropLast_append_getLast? last hlast
      refine ⟨(FsPath.mk true whole).normalNames.dropLast, last, if (FsPath.mk true whole).normalNames ≠ [] ∧
        (FsPath.mk true whole).endsInDirectory = true then [""] else [], ⟨fun x hx => ?_, ?_, ?_⟩⟩
      · rw [hsplit] at hx
        refine ⟨FsPath.normalNames_isName _ x hx, ?_⟩
        rcases FsPath.mem_of_mem_normalParts hx with hx | hx
        · exact absurd hx List.not_mem_nil
        · exact hwhole x hx
      · split_ifs
        · exact .inr rfl
        · exact .inl rfl
      · rw [hnormal, hsplit]

/-! ## The last rule

By cases on whether the rule that decides matches the path itself. If it does, both readings have
it. If it does not, it matches a directory on the way, and so it decides for that directory or
one above. -/

theorem matchRule_of_matchesItself {rule : Rule} (h : matchesItself cwd path isDirectory rule = true) :
    matchRule cwd path isDirectory rule = true := by
  obtain ⟨candidate, hlast, hmatch⟩ := (Option.any_eq_true _ _).mp h
  exact List.any_eq_true.mpr ⟨candidate, List.mem_of_getLast? hlast, hmatch⟩

theorem ignored_eq_last : ignored cwd rules path isDirectory =
    (lastRule rules (matchRule cwd path isDirectory)).any fun rule => !rule.negated := by
  unfold ignored lastRule
  induction rules using List.reverseRecOn with
  | nil => rfl
  | append_singleton rules rule ih =>
    rw [List.foldl_append, List.reverse_append, ih]
    cases hmatch : matchRule cwd path isDirectory rule <;> simp [hmatch]

/-- The last rule that matches the path itself says that it is ignored. -/
def IgnoredByLast (cwd : List String) (rules : List Rule) (path : FsPath) (isDirectory : Bool) : Prop :=
  ∃ rule, lastRule rules (matchesItself cwd path isDirectory) = some rule ∧ rule.negated = false

/-- The last rule to match anything is the last to match the path, when it does so. -/
theorem lastRule_itself {rule : Rule} (hlast : lastRule rules (matchRule cwd path isDirectory) = some rule)
    (hitself : matchesItself cwd path isDirectory rule = true) :
    lastRule rules (matchesItself cwd path isDirectory) = some rule := by
  obtain ⟨-, later, earlier, hrules, hlater⟩ := List.find?_eq_some_iff_append.mp hlast
  refine List.find?_eq_some_iff_append.mpr ⟨hitself, later, earlier, hrules, fun other hother => ?_⟩
  have hnot := hlater other hother
  cases h : matchesItself cwd path isDirectory other with
  | false => rfl
  | true => simp [matchRule_of_matchesItself h] at hnot

theorem lastRule_none (hlast : lastRule rules (matchRule cwd path isDirectory) = none) :
    lastRule rules (matchesItself cwd path isDirectory) = none := by
  rw [lastRule, List.find?_eq_none] at hlast ⊢
  exact fun rule hrule h => hlast rule hrule (matchRule_of_matchesItself h)

/-- Behind the last rule that matches the path itself, and says that it is ignored, stands a negated rule
    that matches a directory on the way to the path. -/
def TakenBack (cwd : List String) (rules : List Rule) (path : FsPath) (isDirectory : Bool) : Prop :=
  ∃ earlier rule later, rules = earlier ++ rule :: later ∧
    matchesItself cwd path isDirectory rule = true ∧ rule.negated = false ∧
    (∀ other ∈ later, matchesItself cwd path isDirectory other = false) ∧
    ∃ other ∈ later, other.negated = true ∧ matchesOnWay cwd path isDirectory other = true

/-- The directories on the way to a path, the root apart. -/
def above (cwd : List String) (path : FsPath) : List FsPath :=
  (absoluteNormalized cwd path).stripped.properPrefixes.filter (·.parts ≠ [])

/-- A match is one of the path itself or of a directory on the way to it. -/
theorem matchRule_eq : matchRule cwd path isDirectory rule =
    (matchesOnWay cwd path isDirectory rule || matchesItself cwd path isDirectory rule) := by
  unfold matchRule matchesOnWay matchesItself
  cases hlast : (rule.candidates cwd path isDirectory).getLast? with
  | none =>
    rw [List.getLast?_eq_none_iff.mp hlast]
    rfl
  | some candidate =>
    rw [← List.dropLast_append_getLast? candidate hlast, List.any_append, List.dropLast_concat]
    simp

section Parent

variable {names slash : List String} {last : String}

theorem Spelled.mem_above (h : Spelled cwd path names last slash) (hne : names ≠ []) :
    ⟨true, names⟩ ∈ above cwd path := by
  have hstripped : (absoluteNormalized cwd path).stripped = ⟨true, names ++ [last]⟩ := by
    rw [h.normal]
    have hlast := (h.name (show last ∈ _ by simp)).1
    rcases h.ends with rfl | rfl
    · simp [FsPath.stripped, FsPath.trailing, hlast]
    · simp [FsPath.stripped, FsPath.trailing]
  unfold above
  rw [hstripped]
  refine List.mem_filter.mpr ⟨List.mem_map.mpr ⟨names, ?_, rfl⟩, by simpa using hne⟩
  simp [List.inits_append]

/-- For the directory of a path those rules decide that match on the way to the path. -/
theorem Spelled.matchRule_parent (h : Spelled cwd path names last slash) (hne : names ≠ [])
    (hbase : rule.base.isEmpty = true → absoluteNormalized cwd path = path) :
    matchRule cwd ⟨true, names⟩ true rule = matchesOnWay cwd path isDirectory rule := by
  obtain ⟨inside, -, hwhole, hparent⟩ := h.parent hbase
  unfold matchRule matchesOnWay
  rw [hparent hne, hwhole]

/-- A file below the root has nothing on the way to it. -/
theorem Spelled.matchesOnWay_top (h : Spelled cwd path [] last slash)
    (hbase : rule.base.isEmpty = true → absoluteNormalized cwd path = path) :
    matchesOnWay cwd path isDirectory rule = false := by
  obtain ⟨inside, hsub, hwhole, -⟩ := h.parent hbase
  obtain rfl := List.subset_nil.mp hsub
  unfold matchesOnWay
  rw [hwhole]
  rfl

end Parent

/-- **Where no directory on the way is ignored, a match on the way that decides is that of a negated rule.** -/
theorem negated_of_onWay (hpath : (absoluteNormalized cwd path).parts = [] ∨
      ∃ names last slash, Spelled cwd path names last slash)
    (hbase : ∀ rule ∈ rules, rule.base.isEmpty = true → absoluteNormalized cwd path = path)
    (habove : ∀ directory ∈ above cwd path, ignored cwd rules directory true = false)
    (hlast : lastRule rules (matchRule cwd path isDirectory) = some rule)
    (hway : matchesOnWay cwd path isDirectory rule = true) : rule.negated = true := by
  obtain ⟨-, later, earlier, hrules, hlater⟩ := List.find?_eq_some_iff_append.mp hlast
  have hmem (other : Rule) (hother : other ∈ later ∨ other = rule) : other ∈ rules := by
    rw [← List.mem_reverse, hrules]
    rcases hother with hother | rfl
    · exact List.mem_append_left _ hother
    · simp
  have hself := hbase rule (hmem rule (.inr rfl))
  rcases hpath with hroot | ⟨names, last, slash, hspelled⟩
  · have hnone : rule.candidates cwd path isDirectory = [] := candidates_of_root hroot hself
    rw [matchesOnWay, hnone] at hway
    cases hway
  by_cases hne : names = []
  · subst hne
    rw [hspelled.matchesOnWay_top hself] at hway
    cases hway
  have hparent : lastRule rules (matchRule cwd ⟨true, names⟩ true) = some rule := by
    refine List.find?_eq_some_iff_append.mpr ⟨?_, later, earlier, hrules, fun other hother => ?_⟩
    · rw [hspelled.matchRule_parent hne hself]
      exact hway
    · -- what comes later matches neither the path nor what is on the way to it
      have hnot := hlater other hother
      rw [matchRule_eq, Bool.not_or, Bool.and_eq_true] at hnot
      rw [hspelled.matchRule_parent hne (hbase other (hmem other (.inl hother)))]
      exact hnot.1
  have hignored := habove _ (hspelled.mem_above hne)
  rw [ignored_eq_last, hparent] at hignored
  simpa using hignored

theorem TakenBack.ignoredByLast (h : TakenBack cwd rules path isDirectory) :
    IgnoredByLast cwd rules path isDirectory := by
  obtain ⟨earlier, rule, later, hrules, hmatch, hsays, hlater, -⟩ := h
  refine ⟨rule, List.find?_eq_some_iff_append.mpr ⟨hmatch, later.reverse, earlier.reverse, by simp [hrules], ?_⟩, hsays⟩
  intro other hother
  rw [hlater other (List.mem_reverse.mp hother)]
  rfl

/-- What is taken back is not decided by a rule that matches the path itself. -/
theorem TakenBack.itself_ne {last : Rule} (h : TakenBack cwd rules path isDirectory)
    (hlast : lastRule rules (matchRule cwd path isDirectory) = some last) :
    matchesItself cwd path isDirectory last = false := by
  obtain ⟨earlier, rule, later, hrules, -, -, hlater, other, hother, -, hway⟩ := h
  cases hfound : later.reverse.find? (matchRule cwd path isDirectory) with
  | none =>
    have hnot := List.find?_eq_none.mp hfound other (List.mem_reverse.mpr hother)
    rw [matchRule_eq, hway] at hnot
    exact absurd rfl hnot
  | some found =>
    have hsame : lastRule rules (matchRule cwd path isDirectory) = some found := by
      rw [lastRule, hrules, List.reverse_append, List.reverse_cons, List.append_assoc, List.find?_append, hfound]
      rfl
    obtain rfl := Option.some.inj (hlast.symm.trans hsame)
    exact hlater last (List.mem_reverse.mp (List.mem_of_find?_eq_some hfound))

/-- Where a match on the way decides, the last rule that matches the path itself says that it is ignored exactly
    when it is taken back. -/
theorem takenBack_iff {last : Rule} (hlast : lastRule rules (matchRule cwd path isDirectory) = some last)
    (hitself : matchesItself cwd path isDirectory last = false) (hnegated : last.negated = true) :
    TakenBack cwd rules path isDirectory ↔ IgnoredByLast cwd rules path isDirectory := by
  refine ⟨TakenBack.ignoredByLast, ?_⟩
  · rintro ⟨rule, hrule, hsays⟩
    obtain ⟨hmatch, laterItself, earlierItself, hrules, hlaterItself⟩ := List.find?_eq_some_iff_append.mp hrule
    obtain ⟨hdecides, later, earlier, hrules', hlater⟩ := List.find?_eq_some_iff_append.mp hlast
    refine ⟨earlierItself.reverse, rule, laterItself.reverse, ?_, hmatch, hsays, fun other hother => ?_, last, ?_,
      hnegated, ?_⟩
    · have hback := congrArg List.reverse hrules
      simpa using hback
    · simpa using hlaterItself other (List.mem_reverse.mp hother)
    · -- the rule that decides stands behind the last one that matches the path itself
      rw [List.mem_reverse]
      rw [hrules] at hrules'
      rcases List.append_eq_append_iff.mp hrules' with ⟨between, rfl, hrest⟩ | ⟨between, rfl, hrest⟩
      · cases between with
        | nil =>
          obtain ⟨rfl, -⟩ := List.cons.inj hrest
          rw [hmatch] at hitself
          cases hitself
        | cons first between =>
          obtain ⟨rfl, -⟩ := List.cons.inj hrest
          have hnot := hlater rule (by simp)
          rw [matchRule_of_matchesItself hmatch] at hnot
          cases hnot
      · cases between with
        | nil =>
          obtain ⟨rfl, -⟩ := List.cons.inj hrest
          rw [hmatch] at hitself
          cases hitself
        | cons first between =>
          obtain ⟨rfl, -⟩ := List.cons.inj hrest
          simp
    · rw [matchRule_eq, hitself, Bool.or_false] at hdecides
      exact hdecides

/-- **The decision is that of the last rule that matches the path itself**, where no directory on the way to it is
    ignored, exactly when no negated rule behind that one takes a directory back. A rule that has no directory is
    one of no file; for such the path is its own absolute normal form. -/
theorem ignored_iff_last (here text : String) (rules : List Rule) (isDirectory : Bool)
    (hbase : ∀ rule ∈ rules, rule.base.isEmpty = true → absoluteNormalized (cwdOf here) (.ofString text) = .ofString text)
    (habove : ∀ directory ∈ above (cwdOf here) (.ofString text), ignored (cwdOf here) rules directory true = false) :
    (ignored (cwdOf here) rules (.ofString text) isDirectory = true ↔
      IgnoredByLast (cwdOf here) rules (.ofString text) isDirectory) ↔
        ¬ TakenBack (cwdOf here) rules (.ofString text) isDirectory := by
  have hpath := spelled_of_text here text
  generalize FsPath.ofString text = path at hbase habove hpath ⊢
  generalize cwdOf here = cwd at hbase habove hpath ⊢
  rw [ignored_eq_last]
  cases hlast : lastRule rules (matchRule cwd path isDirectory) with
  | none =>
    -- no rule matches anything on the way
    have hnot : ¬ IgnoredByLast cwd rules path isDirectory := by
      rintro ⟨rule, hrule, -⟩
      rw [lastRule_none hlast] at hrule
      cases hrule
    have hkept : ¬ TakenBack cwd rules path isDirectory := fun h => hnot h.ignoredByLast
    simp [hnot, hkept]
  | some last =>
    cases hitself : matchesItself cwd path isDirectory last with
    | true =>
      have hsame := lastRule_itself hlast hitself
      have hkept : ¬ TakenBack cwd rules path isDirectory := by
        intro h
        rw [h.itself_ne hlast] at hitself
        cases hitself
      simp [IgnoredByLast, hsame, hkept]
    | false =>
      have hway : matchesOnWay cwd path isDirectory last = true := by
        have hmatch := List.find?_some hlast
        rwa [matchRule_eq, hitself, Bool.or_false] at hmatch
      have hnegated := negated_of_onWay hpath hbase habove hlast hway
      rw [takenBack_iff hlast hitself hnegated]
      simp [hnegated]

/-- The rules of a file have the directory of the file. -/
theorem base_of_lineRule {line : String} {base : FsPath} (h : lineRule line base = some rule) : rule.base = base := by
  unfold lineRule at h
  simp only at h
  split_ifs at h
  all_goals
    obtain rfl := Option.some.inj h
    rfl

theorem base_of_addFile {file : FsPath} {lines : List String} (hfile : file.isEmpty = false)
    (h : rule ∈ addFile cwd [] file lines) : rule.base.isEmpty = false := by
  obtain ⟨line, -, hline⟩ := List.mem_filterMap.mp h
  rw [base_of_lineRule hline]
  have habsolute : (absoluteNormalized cwd file).isAbsolute = true := by
    unfold absoluteNormalized FsPath.absolute
    rw [hfile]
    by_cases habs : file.isAbsolute = true <;> simp [habs, FsPath.normal]
  simp [FsPath.parent, FsPath.isEmpty, habsolute]

/-- A directory is taken back that is not on the way. -/
theorem ignored_iff_last_log :
    ¬ TakenBack (cwdOf "/") (addFile [] [] (.ofString "/p/.gitignore") ["*.log", "!keep/"])
      (.ofString "/p/logs/a.log") false := by
  refine (ignored_iff_last "/" "/p/logs/a.log" (addFile [] [] (.ofString "/p/.gitignore") ["*.log", "!keep/"]) false
    (fun rule hrule hempty => ?_) (by decide +kernel)).mp (iff_of_true (by decide +kernel) ?_)
  · rw [base_of_addFile (by decide) hrule] at hempty
    cases hempty
  · exact ⟨{ base := .ofString "/p", pattern := "*.log" }, by decide +kernel, rfl⟩

/-- A rule that takes a directory back takes back what another rule says of a file in it. -/
theorem negated_directory_reincludes :
    ¬ ∀ (here text : String) (rules : List Rule) (isDirectory : Bool),
      (∀ directory ∈ above (cwdOf here) (.ofString text), ignored (cwdOf here) rules directory true = false) →
      (ignored (cwdOf here) rules (.ofString text) isDirectory = true ↔
        IgnoredByLast (cwdOf here) rules (.ofString text) isDirectory) := by
  intro h
  have hrules := h "/" "/p/logs/a.log" (addFile [] [] (.ofString "/p/.gitignore") ["*.log", "!logs/"]) false
    (by decide +kernel)
  have hlast : IgnoredByLast (cwdOf "/") (addFile [] [] (.ofString "/p/.gitignore") ["*.log", "!logs/"])
      (.ofString "/p/logs/a.log") false :=
    ⟨{ base := .ofString "/p", pattern := "*.log" }, by decide +kernel, rfl⟩
  exact absurd (hrules.mpr hlast) (by decide +kernel)

end Kiko.GitIgnore
