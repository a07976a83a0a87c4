import Kiko.Lib.Preorder
import Kiko.Transfer.GitIgnore
import Kiko.Transfer.Manifest

/-!
# The files of a transfer (`transfer/file_manifest`)

`collect_files` goes through the source directory with a recursive iterator. Where links to
directories are followed, it keeps the canonical directories it is in, and does not go into one
of them again.

The disk is a tree of places with links in it. Every path the source asks about is resolved from
its text, name by name (`canonicalFrom`): the iterator knows only the walk from the source
directory, and where the walk has led is for the disk to say.

The source reads the disk as it goes along, and the model asks it of one that does not change:
what is shown of the collection is shown for a directory nobody writes to meanwhile. Statuses
that cannot be told are kept, since the code looks at them in some places and not in others, and
an entry that cannot be looked at is left out there without an error.

The loop is given a number of rounds. It is a proof that a number exists
(`Kiko.Transfer.FollowLinks`), and no property of the list is claimed where the rounds have run
out.
-/

set_option autoImplicit false

namespace Kiko.Transfer

open Lexical FileTree GitIgnore

/-! ## The disk

A finite set of entries, by place. Links hold a text, and resolving it is left to
`canonicalFrom`, with a budget of links for each name as the only thing that stops a circle. -/

/-- What a file holds, as far as it is asked for. -/
structure FileInfo where
  size : Nat
  imohash : String
  lines : List String := []
deriving DecidableEq, Repr

/-- A disk that does not change, with finitely many entries. The names of a directory come in
    some order, each once. -/
structure SourceDisk where
  tree : FileTree.Tree FileInfo
  cwd : Place
  listing : Place → List String
  mtimeMs : Place → Nat
  mode : Place → Nat
  mem_listing : ∀ place name, name ∈ listing place → (tree (place ++ [name])).isSome
  nodup : ∀ place, (listing place).Nodup
  names : ∀ place, ∀ name ∈ listing place, FsPath.isName name = true ∧ '/' ∉ name.toList
  finite : ∃ places : List Place, ∀ place, (tree place).isSome → place ∈ places

/-- `canonical`, from a place on. -/
def canonicalFrom (t : FileTree.Tree FileInfo) : Place → List String → Option Place
  | here, [] => some here
  | here, part :: rest =>
    if !isDir t here then none
    else if isSkip part then canonicalFrom t here rest
    else if part = ".." then canonicalFrom t here.dropLast rest
    else (real t maxLinks (here ++ [part])).bind fun there => canonicalFrom t there rest

namespace SourceDisk

variable (disk : SourceDisk)

/-- `weakly_canonical` of a path that exists. -/
def canonical (path : FsPath) : Option Place :=
  if path.isEmpty then none else canonicalFrom disk.tree (origin disk.cwd path) path.parts

def status (path : FsPath) : Option (Node FileInfo) := (disk.canonical path).bind (look disk.tree)

/-- `symlink_status`. -/
def symlinkStatus (path : FsPath) : Option (Node FileInfo) :=
  if endsOpen path then disk.status path
  else (canonicalFrom disk.tree (origin disk.cwd path) path.parts.dropLast).bind fun directory =>
    if isDir disk.tree directory then look disk.tree (directory ++ [path.filename]) else none

def isDirectory (path : FsPath) : Bool :=
  match disk.status path with
  | some .dir => true
  | _ => false

def isSymlink (path : FsPath) : Bool :=
  match disk.symlinkStatus path with
  | some (.symlink _) => true
  | _ => false

/-- The names that a `directory_iterator` gives. -/
def namesIn (path : FsPath) : List String :=
  match disk.canonical path with
  | some place => if isDir disk.tree place then disk.listing place else []
  | none => []

/-- The lines of a path that is a regular file. -/
def linesOf (path : FsPath) : Option (List String) :=
  match disk.status path with
  | some (.file info) => some info.lines
  | _ => none

/-- `file_mtime_ms` -/
def fileMtimeMs (path : FsPath) : Nat := ((disk.canonical path).map disk.mtimeMs).getD 0

/-- `file_mode_bits` -/
def fileModeBits (path : FsPath) : Nat := ((disk.canonical path).map disk.mode).getD 0

end SourceDisk

/-! ## Ignore files

The rules of all directories from the repository's down to the source, the outermost first.
Those further down are read as the loop gets to them. -/

section GitIgnoreFiles

variable (disk : SourceDisk)

/-- `add_file` of a path that may be no regular file, in which case it is not called. -/
def addIgnoreFile (rules : List Rule) (path : FsPath) : List Rule :=
  match disk.linesOf path with
  | some lines => addFile disk.cwd rules path lines
  | none => rules

def gitignoreIn (directory : FsPath) : FsPath := directory.join { parts := [".gitignore"] }

/-- `load_gitignore_stack`: from the repository's directory down to the source, or the source
    alone when there is no repository around it. -/
def loadGitignoreStack (root : FsPath) : List Rule :=
  let absoluteRoot := absoluteNormalized disk.cwd root
  let upwards := absoluteRoot.parts.inits.reverse.map fun parts => { absoluteRoot with parts := parts }
  let found := upwards.findIdx fun directory =>
    (disk.status (directory.join { parts := [".git"] })).isSome
  let directories := if found < upwards.length then (upwards.take (found + 1)).reverse else [absoluteRoot]
  directories.foldl (fun rules directory => addIgnoreFile disk rules (gitignoreIn directory)) []

end GitIgnoreFiles

/-! ## Entries

What is put in the list for a path. A link is an entry of its own only where links are kept;
else it is what it leads to, or, where it leads nowhere, left out. -/

inductive SymlinkMode
  | follow
  | preserve
deriving DecidableEq, Repr

structure CollectOptions where
  useGitignore : Bool := true
  symlinkMode : SymlinkMode := .follow
deriving DecidableEq, Repr

/-- `follow_directory_symlinks`. -/
def CollectOptions.follow (options : CollectOptions) : Bool := options.symlinkMode = .follow

section Entries

variable (disk : SourceDisk)

/-- The base of the relative names. -/
def baseOf (path : FsPath) : FsPath := if path.parent.isEmpty then { parts := ["."] } else path.parent

/-- `relative_lexical`. The second path is asked for when the first is empty. -/
def relativeLexical (path base : FsPath) : String :=
  let rel := lexicallyRelative path base
  if rel.isEmpty then
    match disk.canonical path, disk.canonical base with
    | some path, some base => "/".intercalate (FsPath.relativeParts ⟨true, path⟩ ⟨true, base⟩)
    | _, _ => ""
  else rel.text

def makeSymlinkEntry (path base : FsPath) : Except KikoError FileEntry := do
  let target ← match disk.symlinkStatus path with
    | some (.symlink target) => pure target
    | _ => throw ("failed to read symlink: " ++ path.text)
  if !isSafeRelativeSymlinkTarget (FsPath.ofString target) then
    throw ("unsafe symlink target for " ++ path.text ++ ": " ++ target)
  return {
    absolute := path.text
    relative := relativeLexical disk path base
    symlink := true
    linkTarget := target }

def fileEntry (path : FsPath) (relative : String) (info : FileInfo) : FileEntry where
  absolute := path.text
  relative := relative
  size := info.size
  imohash := info.imohash
  mtimeMs := disk.fileMtimeMs path
  mode := disk.fileModeBits path

def directoryEntry (path : FsPath) (relative : String) : FileEntry where
  absolute := path.text
  relative := relative ++ "/"
  mtimeMs := disk.fileMtimeMs path
  mode := disk.fileModeBits path

/-- What is collected of a path that was not left out: a link where links are kept, a regular
    file, or a directory with nothing in it. -/
def describe (options : CollectOptions) (path base : FsPath) (isDirectory : Bool) :
    Except KikoError (Option FileEntry) :=
  if options.symlinkMode = .preserve ∧ disk.isSymlink path then
    (makeSymlinkEntry disk path base).map some
  else
    match disk.status path with
    | some (.file info) => .ok (some (fileEntry disk path (relativeLexical disk path base) info))
    | _ =>
      if isDirectory ∧ disk.namesIn path = [] then
        .ok (some (directoryEntry disk path (relativeLexical disk path base)))
      else .ok none

end Entries

/-! ## The loop

The state of the iterator is the stack of what is left to list. The code's `canonical_ancestors`
is cut to the depth at the head of each round, since the iterator does not say when it leaves a
directory. -/

structure CollectState where
  position : Preorder.Position String
  /-- `canonical_ancestors` -/
  ancestors : List Place
  rules : List Rule
  entries : List FileEntry := []
deriving DecidableEq, Repr

section Loop

variable (disk : SourceDisk) (options : CollectOptions) (root : FsPath)

/-- `it->path()`, where the names lead from the source directory. -/
def entryPath (walk : List String) : FsPath := root.join { parts := walk }

/-- What the iterator lists below a walk. -/
def children (walk : List String) : List String := disk.namesIn (entryPath root walk)

/-- The rest of a round, from the look at the ignore rules on; beside it `recursion_pending`. -/
def collectVisible (s : CollectState) (path : FsPath) (isDirectory : Bool) :
    Except KikoError (CollectState × Bool) := do
  if options.useGitignore && ignored disk.cwd s.rules path isDirectory then return (s, !isDirectory)
  let rules := if options.useGitignore && isDirectory then
      addIgnoreFile disk s.rules (gitignoreIn path)
    else s.rules
  let entry ← describe disk options path (baseOf root) isDirectory
  return ({ s with rules := rules, entries := s.entries ++ entry.toList }, true)

/-- `canonical_ancestors` at the head of a round. -/
def trimmed (s : CollectState) : List Place :=
  if options.follow then s.ancestors.take (Preorder.depth s.position + 1) else s.ancestors

/-- One round, at the walk the iterator stands at. A path whose status cannot be told is passed
    over. -/
def collectEntry (s : CollectState) (walk : List String) : Except KikoError (CollectState × Bool) := do
  let path := entryPath root walk
  let s := { s with ancestors := trimmed options s }
  let looksThrough := !disk.isSymlink path || options.follow
  if (disk.symlinkStatus path).isNone then return (s, true)
  if looksThrough && (disk.status path).isNone then return (s, true)
  let isDirectory := looksThrough && disk.isDirectory path
  if options.follow && isDirectory then
    match disk.canonical path with
    | none => throw ("failed to resolve source directory: " ++ path.text)
    | some directory =>
      if directory ∈ s.ancestors then return (s, false)
      collectVisible disk options root { s with ancestors := s.ancestors ++ [directory] } path isDirectory
  else collectVisible disk options root s path isDirectory

/-- The iterator goes into a directory if that was not switched off, and into a link to one
    where it was told to follow links. -/
def recursesInto (pending : Bool) (walk : List String) : Bool :=
  let path := entryPath root walk
  pending && disk.isDirectory path && (!disk.isSymlink path || options.follow)

def collectStep (s : CollectState) (walk : List String) : Except KikoError CollectState := do
  let (s', pending) ← collectEntry disk options root s walk
  return { s' with position :=
    Preorder.advance (children disk root) (recursesInto disk options root pending walk) s.position }

/-- The loop, for as many rounds as the first argument says. -/
def collectLoop : Nat → CollectState → Option (Except KikoError CollectState)
  | 0, s => if Preorder.current s.position = none then some (.ok s) else none
  | rounds + 1, s =>
    match Preorder.current s.position with
    | none => some (.ok s)
    | some walk =>
      match collectStep disk options root s walk with
      | .error e => some (.error e)
      | .ok s' => collectLoop rounds s'

def collectStart (directory : Place) : CollectState where
  position := Preorder.start (children disk root)
  ancestors := if options.follow then [directory] else []
  rules := if options.useGitignore then loadGitignoreStack disk root else []

/-- `collect_files`, for as many rounds as the first argument says. -/
def collectFiles (rounds : Nat) : Option (Except KikoError (List FileEntry)) :=
  if options.symlinkMode = .preserve ∧ disk.isSymlink root then
    some ((makeSymlinkEntry disk root (baseOf root)).map fun entry => [entry])
  else
    match disk.canonical root, disk.status root with
    | some directory, some .dir =>
      (collectLoop disk options root rounds (collectStart disk options root directory)).map
        fun result => result.map fun s =>
          if s.entries = [] then [directoryEntry disk root root.filename] else s.entries
    | _, some (.file info) => some (.ok [fileEntry disk root root.filename info])
    | _, _ => some (.error ("not a file or directory: " ++ root.text))

end Loop

end Kiko.Transfer
