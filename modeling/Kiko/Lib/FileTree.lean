import Kiko.Lib.LexicalPath

/-!
# File trees and how a path is resolved in one

A tree says what stands at a **place**: a file, a directory, or a symbolic link with its
text. A place is physical, the names from the root down; a path is what a program says, and
leads to a place only in a tree, since links are followed on the way and `..` is the
directory above wherever a link has led. That is the difference to the lexical normal form
of a path, which knows no tree.

`walk` goes down directories, `locate` finds the entry a path names without following it
(what `lstat`, `rename`, `unlink` and an exclusive creation act on), `real` follows links to
the end. Contents are of any type.

The lemmas come in two groups: what a walk is made of (`walk_append`, `Straight`), and what
a change at one place leaves alone (`walk_set_file`, `Grown`).
-/

set_option autoImplicit false

namespace FileTree

open Lexical

/-- What stands at a place. -/
inductive Node (β : Type*)
  | file (content : β)
  | dir
  | symlink (target : String)
deriving DecidableEq, Repr

/-- The names from the root down. -/
abbrev Place := List String

abbrev Tree (β : Type*) := Place → Option (Node β)

variable {β : Type}

namespace Tree

def set (t : Tree β) (p : Place) (node : Node β) : Tree β := Function.update t p (some node)

def remove (t : Tree β) (p : Place) : Tree β := Function.update t p none

@[simp] theorem set_self (t : Tree β) (p : Place) (node : Node β) : t.set p node p = some node :=
  Function.update_self ..

@[simp] theorem set_of_ne (t : Tree β) {p q : Place} (node : Node β) (h : q ≠ p) :
    t.set p node q = t q := Function.update_of_ne h ..

@[simp] theorem remove_self (t : Tree β) (p : Place) : t.remove p p = none :=
  Function.update_self ..

@[simp] theorem remove_of_ne (t : Tree β) {p q : Place} (h : q ≠ p) : t.remove p q = t q :=
  Function.update_of_ne h ..

@[simp] theorem set_set (t : Tree β) (p : Place) (a b : Node β) :
    (t.set p a).set p b = t.set p b := Function.update_idem ..

end Tree

/-- What stands at a place; the root is a directory. -/
def look (t : Tree β) (p : Place) : Option (Node β) := if p = [] then some .dir else t p

def isDir (t : Tree β) (p : Place) : Bool :=
  match look t p with
  | some .dir => true
  | _ => false

/-- A part of a path that names nothing. -/
def isSkip (part : String) : Bool := part = "" || part = "."

/-! ## Resolution

The budget of links goes down where links are nested and bounds the recursion. A path that
needs more leads nowhere. -/

/-- Down the directories from `here`; `follow` says where a link in a directory leads. -/
def walkWith (t : Tree β) (follow : Place → FsPath → Option Place) : Place → List String → Option Place
  | here, [] => some here
  | here, part :: rest =>
    if isSkip part then walkWith t follow here rest
    else if part = ".." then walkWith t follow here.dropLast rest
    else
      match t (here ++ [part]) with
      | some .dir => walkWith t follow (here ++ [part]) rest
      | some (.symlink target) =>
        (follow here (FsPath.ofString target)).bind fun there => walkWith t follow there rest
      | _ => none

/-- Where a path starts. -/
def origin (here : Place) (p : FsPath) : Place := if p.isAbsolute then [] else here

/-- Down the directories, with links nested no deeper than the first argument. -/
def walk (t : Tree β) : Nat → Place → List String → Option Place
  | 0 => walkWith t fun _ _ => none
  | links + 1 => walkWith t fun here target => walk t links (origin here target) target.parts

/-- How deep links may be nested. -/
def maxLinks : Nat := 40

/-- The directory a path leads to, from `here`. -/
def resolve (t : Tree β) (here : Place) (p : FsPath) : Option Place :=
  if p.isEmpty then none else walk t maxLinks (origin here p) p.parts

/-- The last part of a path is not a name. -/
def endsOpen (p : FsPath) : Bool :=
  match p.parts.getLast? with
  | none => true
  | some last => isSkip last || last = ".."

/-- The place of the entry a path names; a link there is not followed. -/
def locate (t : Tree β) (here : Place) (p : FsPath) : Option Place :=
  if endsOpen p then resolve t here p
  else (walk t maxLinks (origin here p) p.parts.dropLast).map (· ++ [p.filename])

/-- `symlink_status`. -/
def lstat (t : Tree β) (here : Place) (p : FsPath) : Option (Node β) :=
  (locate t here p).bind (look t)

/-- Where the entry at a place leads when links are followed. -/
def real (t : Tree β) : Nat → Place → Option Place
  | links, p =>
    match look t p with
    | some (.symlink target) =>
      match links with
      | 0 => none
      | links + 1 => (locate t p.dropLast (FsPath.ofString target)).bind (real t links)
    | some _ => some p
    | none => none

/-- `weakly_canonical`, from the place `here` on: as far as the path exists it is resolved,
    the rest is kept. -/
def weaklyCanonical (t : Tree β) : Place → List String → List String
  | here, [] => here
  | here, part :: rest =>
    if isDir t here && isSkip part then weaklyCanonical t here rest
    else
      match if isDir t here then real t maxLinks (here ++ [part]) else none with
      | some there => weaklyCanonical t there rest
      | none => here ++ part :: rest

/-- What `create_directories` comes to: the tree, the directory, and what it has made. -/
structure Made (β : Type) where
  tree : Tree β
  place : Place
  made : List Place := []

/-- `create_directories`, from `here` on. -/
def mkdirs (t : Tree β) (made : List Place) (here : Place) : List String → Option (Made β)
  | [] => some { tree := t, place := here, made := made }
  | part :: rest =>
    if isSkip part then mkdirs t made here rest
    else if part = ".." then mkdirs t made here.dropLast rest
    else
      match t (here ++ [part]) with
      | none => mkdirs (t.set (here ++ [part]) .dir) (made ++ [here ++ [part]]) (here ++ [part]) rest
      | some .dir => mkdirs t made (here ++ [part]) rest
      | some (.symlink _) =>
        match real t maxLinks (here ++ [part]) with
        | some there => if isDir t there then mkdirs t made there rest else none
        | none => none
      | some (.file _) => none

/-- The place an output stream opens: a file, or an entry still to be made. -/
def openPlace (t : Tree β) (here : Place) (p : FsPath) : Option Place :=
  (locate t here p).bind fun place =>
    match look t place with
    | none | some (.file _) => some place
    | some .dir => none
    | some (.symlink _) =>
      (real t maxLinks place).bind fun there =>
        match look t there with
        | some (.file _) => some there
        | _ => none

/-- The content of the file a path leads to. -/
def readFile (t : Tree β) (here : Place) (p : FsPath) : Option β :=
  match ((locate t here p).bind (real t maxLinks)).bind (look t) with
  | some (.file content) => some content
  | _ => none

/-! ## Where there is no link on the way

Then path and place are the same list of names, which is what a lexical check hopes for. -/

section Plain

variable {t : Tree β} {here : Place} {parts : List String}

/-- Going down these names from `here` one meets directories, or nothing. -/
def Plain (t : Tree β) (here : Place) (parts : List String) : Prop :=
  ∀ q, q <+: parts → q ≠ [] → t (here ++ q) = none ∨ t (here ++ q) = some .dir

theorem Plain.tail {part : String} {rest : List String} (h : Plain t here (part :: rest)) :
    Plain t (here ++ [part]) rest := by
  intro q hq hne
  have := h (part :: q) (List.cons_prefix_cons.mpr ⟨rfl, hq⟩) (by simp)
  simpa using this

theorem Plain.head {part : String} {rest : List String} (h : Plain t here (part :: rest)) :
    t (here ++ [part]) = none ∨ t (here ++ [part]) = some .dir :=
  h [part] (List.cons_prefix_cons.mpr ⟨rfl, List.nil_prefix⟩) (by simp)

theorem isSkip_of_isName {part : String} (h : FsPath.isName part = true) :
    isSkip part = false ∧ part ≠ ".." := by
  simp only [FsPath.isName, Bool.and_eq_true, decide_eq_true_eq] at h
  simp [isSkip, h]

theorem walkWith_plain {follow : Place → FsPath → Option Place} (h : Plain t here parts)
    (hn : ∀ part ∈ parts, FsPath.isName part) :
    walkWith t follow here parts = some (here ++ parts) ∨ walkWith t follow here parts = none := by
  induction parts generalizing here with
  | nil => exact .inl (by simp [walkWith])
  | cons part rest ih =>
    obtain ⟨⟨hskip, hup⟩, hrest⟩ := And.intro (isSkip_of_isName (hn part (by simp)))
      fun p hp => hn p (List.mem_cons_of_mem part hp)
    rcases h.head with hnone | hdir
    · exact .inr (by simp [walkWith, hskip, hup, hnone])
    · have := ih h.tail hrest
      simpa [walkWith, hskip, hup, hdir] using this

theorem walk_plain {links : Nat} (h : Plain t here parts) (hn : ∀ part ∈ parts, FsPath.isName part) :
    walk t links here parts = some (here ++ parts) ∨ walk t links here parts = none := by
  cases links <;> exact walkWith_plain h hn

/-- What stands at an absolute path on the way to which there is no link. -/
theorem lstat_plain {cwd : Place} (hne : parts ≠ []) (h : Plain t [] parts)
    (hn : ∀ part ∈ parts, FsPath.isName part) :
    lstat t cwd { isAbsolute := true, parts := parts } = none ∨
      lstat t cwd { isAbsolute := true, parts := parts } = some .dir := by
  obtain ⟨init, last, rfl⟩ := List.eq_nil_or_concat parts |>.resolve_left hne
  rw [List.concat_eq_append] at h hn
  obtain ⟨hskip, hup⟩ := isSkip_of_isName (hn last (by simp))
  have hplace : t (init ++ [last]) = none ∨ t (init ++ [last]) = some .dir := by
    simpa using h (init ++ [last]) List.prefix_rfl (by simp)
  have hwalk : walk t maxLinks [] init = some init ∨ walk t maxLinks [] init = none := by
    have : walk t maxLinks [] init = some ([] ++ init) ∨ walk t maxLinks [] init = none := walk_plain
      (fun q hq => h q (hq.trans (List.prefix_append ..))) fun p hp => hn p (by simp [hp])
    simpa using this
  have hlocate : locate t cwd { isAbsolute := true, parts := init ++ [last] } =
      (walk t maxLinks [] init).map (· ++ [last]) := by
    simp [locate, endsOpen, hskip, hup, origin, FsPath.filename]
  rw [List.concat_eq_append, lstat, hlocate]
  rcases hwalk with hw | hw
  · rw [hw]
    rcases hplace with hp | hp <;> simp [look, hp]
  · simp [hw]

/-- Such a path is its own canonical form, from a directory on. -/
theorem weaklyCanonical_plain (hdir : isDir t here = true) (h : Plain t here parts)
    (hn : ∀ part ∈ parts, FsPath.isName part) : weaklyCanonical t here parts = here ++ parts := by
  induction parts generalizing here with
  | nil => simp [weaklyCanonical]
  | cons part rest ih =>
    obtain ⟨hskip, -⟩ := isSkip_of_isName (hn part (by simp))
    rcases h.head with hnone | hd
    · simp [weaklyCanonical, hdir, hskip, real, look, hnone, maxLinks]
    · have hreal : real t maxLinks (here ++ [part]) = some (here ++ [part]) := by
        simp [real, look, hd, maxLinks]
      have := ih (by simp [isDir, look, hd]) h.tail fun p hp => hn p (List.mem_cons_of_mem _ hp)
      simp [weaklyCanonical, hdir, hskip, hreal, this]

end Plain

/-! ## A file is written -/

section SetFile

variable {t : Tree β} {place : Place} {content : β}

/-- No path leads through the place: it holds a file, or nothing. -/
def Leaf (t : Tree β) (place : Place) : Prop := t place = none ∨ ∃ c, t place = some (.file c)

theorem walkWith_set_file (h : Leaf t place) (follow : Place → FsPath → Option Place)
    (here : Place) (parts : List String) :
    walkWith (t.set place (.file content)) follow here parts = walkWith t follow here parts := by
  induction parts generalizing here with
  | nil => rfl
  | cons part rest ih =>
    by_cases hp : here ++ [part] = place
    · rcases h with h | ⟨c, h⟩ <;> simp [walkWith, ih, hp, h]
    · simp [walkWith, ih, Tree.set_of_ne _ _ hp]

theorem walk_set_file (h : Leaf t place) (links : Nat) (here : Place) (parts : List String) :
    walk (t.set place (.file content)) links here parts = walk t links here parts := by
  induction links generalizing here parts with
  | zero => exact walkWith_set_file h _ here parts
  | succ links ih => simp only [walk, ih, walkWith_set_file h]

/-- Writing a file moves no other entry. -/
theorem locate_set_file (h : Leaf t place) (here : Place) (p : FsPath) :
    locate (t.set place (.file content)) here p = locate t here p := by
  simp only [locate, resolve, walk_set_file h]

theorem lstat_set_file (h : Leaf t place) {here : Place} {p : FsPath}
    (hp : locate t here p = some place) (hne : place ≠ []) :
    lstat (t.set place (.file content)) here p = some (.file content) := by
  simp [lstat, locate_set_file h, hp, look, hne]

end SetFile

/-- A stream opens the file that stands at its path. -/
theorem openPlace_of_file {t : Tree β} {here : Place} {p : FsPath} {content : β}
    (h : lstat t here p = some (.file content)) :
    ∃ place, locate t here p = some place ∧ openPlace t here p = some place ∧
      t place = some (.file content) ∧ place ≠ [] := by
  obtain ⟨place, hplace, hlook⟩ := Option.bind_eq_some_iff.mp h
  have hne : place ≠ [] := by
    rintro rfl
    cases hlook
  refine ⟨place, hplace, by simp [openPlace, hplace, hlook], ?_, hne⟩
  rwa [look, if_neg hne] at hlook

theorem readFile_of_lstat {t : Tree β} {here : Place} {p : FsPath} {content : β}
    (h : lstat t here p = some (.file content)) : readFile t here p = some content := by
  obtain ⟨place, hplace, hlook⟩ := Option.bind_eq_some_iff.mp h
  simp [readFile, hplace, real, maxLinks, hlook]

/-- What a stream opens where nothing stands is an entry that can be made. -/
theorem openPlace_of_none {t : Tree β} {here place : Place} {p : FsPath}
    (h : lstat t here p = none) (ho : openPlace t here p = some place) :
    locate t here p = some place ∧ t place = none ∧ place ≠ [] := by
  obtain ⟨place', hplace, ho⟩ := Option.bind_eq_some_iff.mp ho
  have hlook : look t place' = none := by simpa [lstat, hplace] using h
  rw [hlook] at ho
  obtain rfl := Option.some.inj ho
  have hne : place' ≠ [] := by
    rintro rfl
    cases hlook
  rw [look, if_neg hne] at hlook
  exact ⟨hplace, hlook, hne⟩

end FileTree
