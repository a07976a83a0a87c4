import Mathlib

/-!
# Paths as text

The lexical half of a file system library in the style of C++'s `std::filesystem::path`:
a path is split at its slashes, a trailing slash counts as an empty last part, and
everything here is computed from the text alone, without a look at any file system. The
operations are named and behave as the library documents them, on a system whose only
separator is `/`.

`normal` and `stripped` are what two spellings of one place have in common;
`properPrefixes` are the places a path goes through.
-/

set_option autoImplicit false

namespace Lexical

/-- A piece of a list that was split at a mark does not have the mark. -/
theorem notMem_of_mem_splitOn {α : Type} [BEq α] [LawfulBEq α] {a : α} {as l : List α}
    (h : l ∈ as.splitOn a) : a ∉ l := by
  induction as generalizing l with
  | nil =>
    rw [List.splitOn_nil, List.mem_singleton] at h
    simp [h]
  | cons b as ih =>
    rw [List.splitOn_cons_eq_if_modifyHead] at h
    by_cases hb : (b == a) = true
    · rw [if_pos hb] at h
      rcases List.mem_cons.mp h with rfl | h
      · exact List.not_mem_nil
      · exact ih h
    · rw [if_neg hb] at h
      cases hsplit : as.splitOn a with
      | nil => exact absurd hsplit (List.splitOn_ne_nil a as)
      | cons l₀ ls =>
        rw [hsplit] at h ih
        rcases List.mem_cons.mp h with rfl | h
        · -- the first piece has grown by an element that is not the separator
          intro hmem
          rcases List.mem_cons.mp hmem with rfl | hmem
          · exact hb (beq_self_eq_true _)
          · exact ih List.mem_cons_self hmem
        · exact ih (List.mem_cons_of_mem _ h)

/-- A path: whether it starts at the root, and its parts as an iterator gives them; a
    trailing slash is an empty last part. -/
structure FsPath where
  isAbsolute : Bool := false
  parts : List String
deriving DecidableEq, Repr

namespace FsPath

/-- A path from its text. -/
def ofString (text : String) : FsPath :=
  let pieces := (text.toList.splitOn '/').map String.ofList
  let parts := pieces.filter (· ≠ "")
  { isAbsolute := text.toList.head? = some '/'
    parts := if parts ≠ [] ∧ text.toList.getLast? = some '/' then parts ++ [""] else parts }

/-- The text of a path. -/
def text (p : FsPath) : String := (if p.isAbsolute then "/" else "") ++ "/".intercalate p.parts

def isEmpty (p : FsPath) : Bool := !p.isAbsolute && p.parts.isEmpty

/-- The path ends in a slash. -/
def trailing (p : FsPath) : Bool := p.parts.getLast? = some ""

/-- The path without its trailing slash. -/
def stripped (p : FsPath) : FsPath :=
  if p.trailing then { p with parts := p.parts.dropLast } else p

/-- `base / rel`. -/
def join (base rel : FsPath) : FsPath :=
  if rel.isAbsolute then rel
  else { base with parts := base.stripped.parts ++ if rel.parts = [] then [""] else rel.parts }

/-- `path += text`, for a text without a slash. -/
def concat (p : FsPath) (text : String) : FsPath :=
  { p with parts := p.parts.dropLast ++ [p.parts.getLast?.getD "" ++ text] }

/-- `parent_path`. -/
def parent (p : FsPath) : FsPath := { p with parts := p.parts.dropLast }

/-- `filename`. -/
def filename (p : FsPath) : String := p.parts.getLast?.getD ""

/-- A file name split before its last dot; a name that starts with its only dot, and the
    names `.` and `..`, have no extension. -/
def splitExtension (name : String) : String × String :=
  let backward := name.toList.reverse
  match backward.dropWhile (· ≠ '.') with
  | [] => (name, "")
  | _ :: stem =>
    if stem = [] ∨ name = ".." then (name, "")
    else (String.ofList stem.reverse,
      String.ofList ('.' :: (backward.takeWhile (· ≠ '.')).reverse))

/-- `stem`. -/
def stem (p : FsPath) : String := (splitExtension p.filename).1

/-- `extension`. -/
def extension (p : FsPath) : String := (splitExtension p.filename).2

/-- The parts without `.`, with every `..` taken back; `taken` holds what is kept, last
    part first. -/
def normalParts (absolute : Bool) : (taken parts : List String) → List String
  | taken, [] => taken.reverse
  | taken, part :: rest =>
    if part = "." ∨ part = "" then normalParts absolute taken rest
    else if part = ".." then
      match taken with
      | [] => normalParts absolute (if absolute then [] else [".."]) rest
      | top :: below =>
        if top = ".." then normalParts absolute (".." :: top :: below) rest
        else normalParts absolute below rest
    else normalParts absolute (part :: taken) rest

/-- `lexically_normal`. -/
def normal (p : FsPath) : FsPath :=
  let parts := normalParts p.isAbsolute [] p.parts
  let slash := p.parts.getLast? ∈ [some ".", some "", some ".."] ∧ parts.getLast? ≠ some ".."
  { p with parts :=
      if parts = [] then if p.isAbsolute ∨ p.parts = [] then [] else ["."]
      else if slash then parts ++ [""] else parts }

/-- `absolute`, in the directory `cwd`; the empty path has none. -/
def absolute (cwd : List String) (p : FsPath) : Option FsPath :=
  if p.isEmpty then none
  else if p.isAbsolute then some p
  else some { isAbsolute := true, parts := cwd ++ p.parts }

/-- What two lists have after their common beginning. -/
def mismatch : List String → List String → List String × List String
  | a :: as, b :: bs => if a = b then mismatch as bs else (a :: as, b :: bs)
  | as, bs => (as, bs)

/-- `lexically_relative`, by its parts, for two paths that both start at the root. -/
def relativeParts (p base : FsPath) : List String :=
  let (rest, up) := mismatch p.parts base.parts
  let back := (up.filter fun part => part ≠ "" ∧ part ≠ ".").length
  if back = 0 ∧ (rest = [] ∨ rest = [""]) then ["."] else List.replicate back ".." ++ rest

/-- The parts of one path stand at the beginning of the other's. -/
def hasPrefix (base p : FsPath) : Bool :=
  base.isAbsolute = p.isAbsolute && base.parts.isPrefixOf p.parts

/-- The paths on the way to `p`, the shortest first. -/
def properPrefixes (p : FsPath) : List FsPath :=
  p.parts.inits.dropLast.map fun parts => { p with parts := parts }

/-- Between the slashes of a text there is none. -/
theorem slash_notMem_ofString {text part : String} (h : part ∈ (ofString text).parts) : '/' ∉ part.toList := by
  have hpieces : part = "" ∨ part ∈ (text.toList.splitOn '/').map String.ofList := by
    simp only [ofString] at h
    split_ifs at h
    · rcases List.mem_append.mp h with h | h
      · exact .inr (List.mem_of_mem_filter h)
      · exact .inl (List.mem_singleton.mp h)
    · exact .inr (List.mem_of_mem_filter h)
  rcases hpieces with rfl | hpiece
  · simp
  · obtain ⟨piece, hmem, rfl⟩ := List.mem_map.mp hpiece
    rw [String.toList_ofList]
    exact notMem_of_mem_splitOn hmem

theorem mismatch_append (pre as bs : List String) : mismatch (pre ++ as) (pre ++ bs) = mismatch as bs := by
  induction pre with
  | nil => rfl
  | cons p pre ih => simpa [mismatch] using ih

/-- Two lists go apart behind what they have in common. -/
theorem exists_mismatch (as bs : List String) :
    ∃ pre, as = pre ++ (mismatch as bs).1 ∧ bs = pre ++ (mismatch as bs).2 ∧
      ∀ a ∈ (mismatch as bs).1.head?, a ∉ (mismatch as bs).2.head? := by
  induction as generalizing bs with
  | nil => exact ⟨[], rfl, rfl, nofun⟩
  | cons a as ih =>
    cases bs with
    | nil => exact ⟨[], rfl, rfl, fun _ _ => nofun⟩
    | cons b bs =>
      by_cases hab : a = b
      · obtain ⟨pre, hleft, hright, happart⟩ := ih bs
        rw [mismatch, if_pos hab]
        exact ⟨a :: pre, congrArg (a :: ·) hleft, hab ▸ congrArg (a :: ·) hright, happart⟩
      · rw [mismatch, if_neg hab]
        refine ⟨[], rfl, rfl, fun x hx hx' => hab ?_⟩
        exact (Option.some.inj hx).trans (Option.some.inj hx').symm

/-- Lists that go apart at once have nothing in common. -/
theorem mismatch_of_head {as bs : List String} (h : ∀ a ∈ as.head?, a ∉ bs.head?) :
    mismatch as bs = (as, bs) := by
  cases as with
  | nil => rfl
  | cons a as =>
    cases bs with
    | nil => rfl
    | cons b bs =>
      rw [mismatch, if_neg]
      rintro rfl
      exact h a rfl rfl

/-- Where a list is split at the last of its marks, it is split in one way. -/
theorem eq_of_last_split {α : Type*} {mark : α} {as bs cs ds : List α} (hb : mark ∉ bs) (hd : mark ∉ ds)
    (h : as ++ mark :: bs = cs ++ mark :: ds) : bs = ds := by
  rcases List.append_eq_append_iff.mp h with ⟨between, -, heq⟩ | ⟨between, -, heq⟩
  · cases between with
    | nil => exact (List.cons.inj heq).2
    | cons c rest =>
      refine absurd ?_ hb
      rw [(List.cons.inj heq).2]
      simp
  · cases between with
    | nil => exact (List.cons.inj heq).2.symm
    | cons c rest =>
      refine absurd ?_ hd
      rw [(List.cons.inj heq).2]
      simp

/-- An extension is what follows the last dot of the name. -/
theorem splitExtension_snd (name : String) : (splitExtension name).2 = "" ∨
    ∃ before ext, name.toList = before ++ '.' :: ext ∧ '.' ∉ ext ∧ (splitExtension name).2.toList = '.' :: ext := by
  unfold splitExtension
  dsimp only
  have hsplit := @List.takeWhile_append_dropWhile _ (fun c => decide (c ≠ '.')) name.toList.reverse
  split
  next => exact .inl rfl
  next dot stem hdrop =>
    split_ifs
    · exact .inl rfl
    · have hdot : dot = '.' := by
        have hhead := List.head?_dropWhile_not (fun c => decide (c ≠ '.')) name.toList.reverse
        rw [hdrop] at hhead
        simpa using hhead
      refine .inr ⟨stem.reverse, (name.toList.reverse.takeWhile (· ≠ '.')).reverse, ?_, ?_, by simp⟩
      · rw [hdrop, hdot] at hsplit
        have := congrArg List.reverse hsplit
        simpa using this.symm
      · intro hmem
        have := List.mem_takeWhile_imp (List.mem_reverse.mp hmem)
        simp at this

/-! ## Normal forms of absolute paths

Normalizing is a fold over the parts that drops what says "here" and takes a name off
for what says "above". On names alone it does nothing, and most of the lemmas are about
how it meets a path that is joined on. -/

/-- A part that is a name, and not a way to say "here" or "above". -/
def isName (part : String) : Bool := part ≠ "" && part ≠ "." && part ≠ ".."

/-- The parts that are no spelling of "here". -/
def names (parts : List String) : List String := parts.filter fun part => part ≠ "" && part ≠ "."

@[simp] theorem names_nil : names [] = [] := rfl

@[simp] theorem names_append (as bs : List String) : names (as ++ bs) = names as ++ names bs :=
  List.filter_append ..

theorem names_isName {parts : List String} (h : ".." ∉ parts) : ∀ part ∈ names parts, isName part := by
  intro part hp
  obtain ⟨hmem, hskip⟩ := List.mem_filter.mp hp
  have hne : part ≠ ".." := fun heq => h (heq ▸ hmem)
  simpa [isName, hne] using hskip

theorem normalParts_cons (absolute : Bool) (taken : List String) (part : String) (rest : List String) :
    normalParts absolute taken (part :: rest) =
      if part = "." ∨ part = "" then normalParts absolute taken rest
      else if part = ".." then
        match taken with
        | [] => normalParts absolute (if absolute then [] else [".."]) rest
        | top :: below =>
          if top = ".." then normalParts absolute (".." :: top :: below) rest
          else normalParts absolute below rest
      else normalParts absolute (part :: taken) rest := by
  rw [normalParts.eq_def]

/-- What is normalised bit by bit is normalised. -/
theorem normalParts_append (absolute : Bool) (taken as bs : List String) :
    normalParts absolute taken (as ++ bs) =
      normalParts absolute (normalParts absolute taken as).reverse bs := by
  induction as generalizing taken with
  | nil => simp [normalParts]
  | cons part rest ih =>
    rw [List.cons_append, normalParts_cons, normalParts_cons]
    by_cases hskip : part = "." ∨ part = ""
    · rw [if_pos hskip, if_pos hskip]
      exact ih taken
    by_cases hup : part = ".."
    · rw [if_neg hskip, if_neg hskip, if_pos hup, if_pos hup]
      cases taken with
      | nil => exact ih _
      | cons top below =>
        by_cases htop : top = ".."
        · simp only [if_pos htop]
          exact ih _
        · simp only [if_neg htop]
          exact ih _
    · rw [if_neg hskip, if_neg hskip, if_neg hup, if_neg hup]
      exact ih _

/-- Without `..` only the spellings of "here" go. -/
theorem normalParts_of_no_up {absolute : Bool} {taken parts : List String} (h : ".." ∉ parts) :
    normalParts absolute taken parts = taken.reverse ++ names parts := by
  induction parts generalizing taken with
  | nil => simp [normalParts]
  | cons part rest ih =>
    obtain ⟨hne, hrest⟩ : ".." ≠ part ∧ ".." ∉ rest := by simpa using h
    rw [normalParts_cons, names]
    by_cases hskip : part = "." ∨ part = ""
    · rw [if_pos hskip, ih hrest, List.filter_cons_of_neg (by rcases hskip with rfl | rfl <;> decide),
        names]
    · rw [if_neg hskip, if_neg (Ne.symm hne), ih hrest, List.filter_cons_of_pos, names]
      · simp
      · simp only [not_or] at hskip
        simp [hskip]

/-- An absolute path's normal form goes through names only. -/
theorem normalParts_isName {taken parts : List String} (h : ∀ part ∈ taken, isName part) :
    ∀ part ∈ normalParts true taken parts, isName part := by
  induction parts generalizing taken with
  | nil => simpa [normalParts] using h
  | cons part rest ih =>
    rw [normalParts_cons]
    by_cases hskip : part = "." ∨ part = ""
    · rw [if_pos hskip]
      exact ih h
    by_cases hup : part = ".."
    · rw [if_neg hskip, if_pos hup]
      cases taken with
      | nil => exact ih (by simp)
      | cons top below =>
        have htop : top ≠ ".." := by
          rintro rfl
          exact absurd (h ".." (by simp)) (by decide)
        simp only [if_neg htop]
        exact ih fun p hp => h p (List.mem_cons_of_mem _ hp)
    · rw [if_neg hskip, if_neg hup]
      refine ih (List.forall_mem_cons.mpr ⟨?_, h⟩)
      simp only [not_or] at hskip
      simp [isName, hskip, hup]

/-- A normal form has no parts of its own. -/
theorem mem_of_mem_normalParts {taken parts : List String} {part : String}
    (h : part ∈ normalParts true taken parts) : part ∈ taken ∨ part ∈ parts := by
  induction parts generalizing taken with
  | nil => exact .inl (by simpa [normalParts] using h)
  | cons first rest ih =>
    have hrest {taken' : List String} (htaken : ∀ x ∈ taken', x ∈ taken ∨ x = first)
        (h : part ∈ normalParts true taken' rest) : part ∈ taken ∨ part ∈ first :: rest := by
      rcases ih h with hmem | hmem
      · rcases htaken part hmem with hmem | rfl
        · exact .inl hmem
        · exact .inr List.mem_cons_self
      · exact .inr (List.mem_cons_of_mem _ hmem)
    rw [normalParts_cons] at h
    by_cases hskip : first = "." ∨ first = ""
    · rw [if_pos hskip] at h
      exact hrest (fun x hx => .inl hx) h
    by_cases hup : first = ".."
    · rw [if_neg hskip, if_pos hup] at h
      cases taken with
      | nil => exact hrest (fun x hx => absurd hx List.not_mem_nil) h
      | cons top below =>
        dsimp only at h
        split_ifs at h with htop
        · exact hrest (fun x hx => (List.mem_cons.mp hx).elim (fun h => .inr (h.trans hup.symm)) .inl) h
        · exact hrest (fun x hx => .inl (List.mem_cons_of_mem _ hx)) h
    · rw [if_neg hskip, if_neg hup] at h
      exact hrest (fun x hx => (List.mem_cons.mp hx).elim .inr .inl) h

/-- The names an absolute path comes to. -/
def normalNames (p : FsPath) : List String := normalParts true [] p.parts

theorem normalNames_isName (p : FsPath) : ∀ part ∈ p.normalNames, isName part :=
  normalParts_isName (by simp)

/-- The path ends in a spelling of a directory rather than in a name. -/
def endsInDirectory (p : FsPath) : Bool := p.parts.getLast? ∈ [some ".", some "", some ".."]

theorem getLast?_ne_of_isName {parts : List String} (h : ∀ part ∈ parts, isName part) {part : String}
    (hp : isName part = false) : parts.getLast? ≠ some part := by
  intro hl
  have := h part (List.mem_of_getLast? hl)
  rw [hp] at this
  cases this

/-- The normal form of an absolute path: its names, and a trailing slash where it ends in a
    directory below the root. -/
theorem normal_of_absolute {p : FsPath} (h : p.isAbsolute = true) : p.normal =
    { isAbsolute := true
      parts := p.normalNames ++ if p.normalNames ≠ [] ∧ p.endsInDirectory then [""] else [] } := by
  have hup : p.normalNames.getLast? ≠ some ".." :=
    getLast?_ne_of_isName p.normalNames_isName (by decide)
  change (normalParts true [] p.parts).getLast? ≠ some ".." at hup
  simp only [normal, h, normalNames, endsInDirectory]
  split_ifs <;> simp_all

/-- An absolute path of names is its own normal form. -/
theorem normal_names {parts : List String} (h : ∀ part ∈ parts, isName part = true) :
    (FsPath.mk true parts).normal = ⟨true, parts⟩ := by
  have hup : ".." ∉ parts := fun hmem => absurd (h _ hmem) (by decide)
  have hnames : names parts = parts := by
    refine List.filter_eq_self.mpr fun part hpart => ?_
    have hname := h part hpart
    simp only [isName, Bool.and_eq_true, decide_eq_true_eq] at hname
    simpa using hname.1
  have hnormal : normalNames ⟨true, parts⟩ = parts := by
    rw [normalNames, normalParts_of_no_up hup, hnames]
    rfl
  have hends : endsInDirectory ⟨true, parts⟩ = false := by
    simp only [endsInDirectory, List.mem_cons, List.not_mem_nil, or_false, decide_eq_false_iff_not, not_or]
    exact ⟨getLast?_ne_of_isName h (by decide), getLast?_ne_of_isName h (by decide),
      getLast?_ne_of_isName h (by decide)⟩
  rw [normal_of_absolute rfl, hnormal, hends]
  simp

/-- A trailing slash is one more way to say "here". -/
theorem normalNames_stripped (p : FsPath) (taken : List String) :
    normalParts true taken p.stripped.parts = normalParts true taken p.parts := by
  rw [stripped]
  split_ifs with h
  · have hlast : p.parts.getLast? = some "" := by simpa [trailing] using h
    have hsplit := List.dropLast_append_getLast? "" hlast
    conv_rhs => rw [← hsplit]
    simp [normalParts_append, normalParts]
  · rfl

example : (ofString "out/./a//b/").normal = ofString "out/a/b/" := by decide
example : (ofString "../x/..").normal = ofString ".." := by decide
example : ((ofString "out").join (ofString "a.tar.gz")).extension = ".gz" := by decide

end FsPath
end Lexical
