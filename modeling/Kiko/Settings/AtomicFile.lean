import Kiko.Core.Protocol
import Kiko.Lib.History

/-!
# Files that are replaced as a whole (`platform/atomic_file`)

A settings file is never written in place: the new contents go to a temporary file beside it,
which is renamed over it once it is written, synced and closed. A file that must not be
overwritten is first renamed to a recovery backup.

The disk is what is at each path. The names of temporary files and backups end in a random
code, which no other name has: here it is a serial number. Every system call may fail; which
ones do is said by a record of faults (`WriteFaults`, `ReadFaults`), an error text for each
that fails. A call that changes the disk is one step of its history, so the history shows every
state that another reader of the files may see.

Crashes are not modelled as such, and need not be: a process that stops leaves the disk as it
was after the last change it has made, and every such disk is in the history. What a sync adds,
that the disk survives the machine, is beyond what can be said of files by their contents.
-/

set_option autoImplicit false

namespace Kiko
namespace Settings

/-! ## The disk

Paths are names, temporary names and names of backups. The three cannot be confused, which is
what the random code is for. -/

inductive Path
  | named (name : String)
  | temporary (of : String) (serial : Nat)
  | backup (of tag : String) (serial : Nat)
  deriving DecidableEq

namespace Path

def text : Path → String
  | named name => name
  | temporary of serial => of ++ ".tmp-" ++ toString serial
  | backup of tag serial => of ++ "." ++ tag ++ "-" ++ toString serial

def IsTemporary : Path → Prop
  | temporary _ _ => True
  | _ => False

end Path

inductive Node
  /-- a regular file, and whether this process may open it -/
  | regular (content : Bytes) (opens : Bool)
  /-- a directory, a symbolic link, a device -/
  | other
  deriving DecidableEq

structure Disk where
  nodes : Path → Option Node
  /-- the next random code -/
  serial : Nat

namespace Disk

/-- The disk with nothing but the named files. -/
def start (files : String → Option Node) : Disk where
  nodes
    | .named name => files name
    | _ => none
  serial := 0

def set (d : Disk) (path : Path) (node : Option Node) : Disk :=
  { d with nodes := Function.update d.nodes path node }

/-- What `path` holds, with `bytes` behind it. -/
def append (d : Disk) (path : Path) (bytes : Bytes) : Disk :=
  match d.nodes path with
  | some (.regular content opens) => d.set path (some (.regular (content ++ bytes) opens))
  | _ => d

def rename (d : Disk) (source destination : Path) : Disk :=
  (d.set destination (d.nodes source)).set source none

/-- A random code is drawn. -/
def draw (d : Disk) : Disk := { d with serial := d.serial + 1 }

variable {d d' : Disk} {path p source destination : Path} {node : Option Node}

@[simp] theorem set_self : (d.set path node).nodes path = node := Function.update_self ..

@[simp] theorem set_of_ne (h : p ≠ path) : (d.set path node).nodes p = d.nodes p :=
  Function.update_of_ne h _ _

@[simp] theorem draw_nodes : d.draw.nodes = d.nodes := rfl

@[simp] theorem set_serial : (d.set path node).serial = d.serial := rfl

theorem rename_destination (h : destination ≠ source) :
    (d.rename source destination).nodes destination = d.nodes source := by
  rw [rename, set_of_ne h, set_self]

theorem rename_of_ne (hs : p ≠ source) (hd : p ≠ destination) :
    (d.rename source destination).nodes p = d.nodes p := by
  rw [rename, set_of_ne hs, set_of_ne hd]

/-- The same but for temporary files. -/
def Same (d d' : Disk) : Prop := ∀ p : Path, ¬ p.IsTemporary → d.nodes p = d'.nodes p

theorem Same.refl (d : Disk) : d.Same d := fun _ _ => rfl

theorem Same.symm (h : d.Same d') : d'.Same d := fun p hp => (h p hp).symm

theorem Same.trans {d'' : Disk} (h : d.Same d') (h' : d'.Same d'') : d.Same d'' :=
  fun p hp => (h p hp).trans (h' p hp)

theorem Same.named (h : d.Same d') (name : String) :
    d.nodes (.named name) = d'.nodes (.named name) := h _ id

theorem Same.set_temporary (h : d.Same d') (of : String) (serial : Nat) (node : Option Node) :
    d.Same (d'.set (.temporary of serial) node) := by
  intro p hp
  have hne : p ≠ .temporary of serial := fun heq => hp (heq ▸ trivial)
  rw [set_of_ne hne, h p hp]

end Disk

/-- The disk now and all it was before. -/
abbrev World := History Disk

/-! ## `atomic_write_text_file`

Every call in it has a fault, and the cleanup runs on each way out. The order of the calls is
the source's, since what is left behind depends on it. -/

/-- What comes of one `write`. -/
inductive WriteReply
  | wrote (count : Nat)
  | interrupted
  | failed (error : String)

structure WriteFaults where
  mkdir : Option String := none
  create : Option String := none
  /-- the answers to `write`; after them, each writes all that is left -/
  writes : List WriteReply := []
  sync : Option String := none
  close : Option String := none
  replace : Option String := none
  /-- whether the removal of the temporary file fails -/
  remove : Bool := false

/-- The loop around `write`. -/
def writeLoop (path : Path) : List WriteReply → Bytes → World → Option String × World
  | _, [], w => (none, w)
  | [], data, w => (none, w.become (w.now.append path data))
  | .interrupted :: replies, data, w => writeLoop path replies data w
  | .failed error :: _, _, w =>
    (some ("failed to write temporary file " ++ path.text ++ ": " ++ error), w)
  | .wrote 0 :: _, _, w =>
    (some ("failed to write temporary file " ++ path.text ++ ": zero-byte write"), w)
  | .wrote count :: replies, data, w =>
    writeLoop path replies (data.drop count) (w.become (w.now.append path (data.take count)))

/-- What comes of creating the file, with `O_EXCL`. -/
def createReply (f : WriteFaults) (path : Path) (d : Disk) : Option String :=
  if (d.nodes path).isSome then some "File exists" else f.create

def writePrivateTempFile (f : WriteFaults) (path : Path) (contents : Bytes) (w : World) :
    Option String × World :=
  match createReply f path w.now with
  | some error => (some ("failed to open temporary file " ++ path.text ++ ": " ++ error), w)
  | none =>
    match writeLoop path f.writes contents (w.become (w.now.set path (some (.regular [] true)))) with
    | (some error, w) => (some error, w)
    | (none, w) =>
      match f.sync with
      | some error => (some ("failed to sync temporary file " ++ path.text ++ ": " ++ error), w)
      | none =>
        match f.close with
        | some error => (some ("failed to close temporary file " ++ path.text ++ ": " ++ error), w)
        | none => (none, w)

/-- `path.filename()` -/
def filename (path : String) : String :=
  String.ofList (path.toList.reverse.takeWhile (· ≠ '/')).reverse

/-- `path.parent_path()` -/
def parentPath (path : String) : String :=
  let above := path.toList.reverse.dropWhile (· ≠ '/')
  match above.dropWhile (· = '/') with
  | [] => if above = [] then "" else "/"
  | parent => String.ofList parent.reverse

/-- The end of `TempFileCleanup`. -/
def cleanup (f : WriteFaults) (path : Path) (w : World) : World :=
  if f.remove then w else w.become (w.now.set path none)

def atomicWriteTextFile (f : WriteFaults) (path : String) (contents : Bytes) (w : World) :
    Option String × World :=
  if path = "" ∨ filename path = "" then (some "persistence path is empty", w)
  else
    match if parentPath path = "" then none else f.mkdir with
    | some error => (some ("failed to create " ++ parentPath path ++ ": " ++ error), w)
    | none =>
      let temporary := .temporary path w.now.serial
      match writePrivateTempFile f temporary contents (w.become w.now.draw) with
      | (some error, w) => (some error, cleanup f temporary w)
      | (none, w) =>
        match f.replace with
        | some error => (some ("failed to replace " ++ path ++ ": " ++ error), cleanup f temporary w)
        | none => (none, w.become (w.now.rename temporary (.named path)))

/-! ## `move_file_to_recovery_backup` -/

def kTagCharacters : String := "abcdefghijklmnopqrstuvwxyz0123456789-_"

/-- The error, or the path of the backup. -/
def moveFileToRecoveryBackup (fault : Option String) (path tag : String) (w : World) :
    Except String Path × World :=
  if tag = "" ∨ ¬ tag.toList.all (kTagCharacters.toList.contains ·) then
    (.error "invalid recovery backup tag", w)
  else
    match fault with
    | some error =>
      (.error ("failed to preserve " ++ path ++ ": " ++ error), w.become w.now.draw)
    | none =>
      (.ok (.backup path tag w.now.serial),
        (w.become w.now.draw).become
          (w.now.draw.rename (.named path) (.backup path tag w.now.serial)))

/-! ## Reading -/

structure ReadFaults where
  /-- `symlink_status` fails -/
  stat : Option String := none
  /-- the file cannot be opened, whatever its permissions -/
  opening : Bool := false
  /-- reading breaks off after the file was opened -/
  reading : Option String := none

inductive FileRead
  | missing
  | unreadable (error : String)
  | broken (error : String)
  | content (bytes : Bytes)

/-- What the loaders of the settings files begin with. -/
def readFile (f : ReadFaults) (path : String) (d : Disk) : FileRead :=
  match f.stat with
  | some error => .unreadable error
  | none =>
    match d.nodes (.named path) with
    | none => .missing
    | some .other => .unreadable "path is not a regular file"
    | some (.regular content opens) =>
      if f.opening ∨ opens = false then .unreadable "could not open file"
      else
        match f.reading with
        | some error => .broken error
        | none => .content content

/-- The faults of a call that reads a file, keeps a backup of it where it must, and writes it. -/
structure SaveFaults where
  read : ReadFaults := {}
  backup : Option String := none
  write : WriteFaults := {}

/-! ## What a whole write does

A write that fails leaves no temporary file, unless removing it fails too, and never a changed
one under the name it was for. -/

open History (Moves)

/-- A step of a whole write to `path` that began on the disk `d₀`. -/
inductive WriteStep (d₀ : Disk) (path : String) (contents : Bytes) : Disk → Disk → Prop
  | draw (d : Disk) : WriteStep d₀ path contents d d.draw
  | scratch (d : Disk) (of : String) (serial : Nat) (node : Option Node) :
      WriteStep d₀ path contents d (d.set (.temporary of serial) node)
  | replace {d : Disk} {serial : Nat} (same : d₀.Same d)
      (whole : d.nodes (.temporary path serial) = some (.regular contents true)) :
      WriteStep d₀ path contents d (d.rename (.temporary path serial) (.named path))

variable {d₀ : Disk} {path of : String} {contents data : Bytes} {serial : Nat} {w w' : World}

/-- The loop changes nothing but its file, which holds all the data when there is no error. -/
theorem writeLoop_spec {replies : List WriteReply} {error : Option String} {c : Bytes}
    (hfile : w.now.nodes (.temporary of serial) = some (.regular c true))
    (h : writeLoop (.temporary of serial) replies data w = (error, w')) :
    Moves (WriteStep d₀ path contents) w w' ∧ w.now.Same w'.now ∧
      (error = none → w'.now.nodes (.temporary of serial) = some (.regular (c ++ data) true)) := by
  have happend : ∀ (w : World) (c bytes : Bytes),
      w.now.nodes (.temporary of serial) = some (.regular c true) →
      w.now.append (.temporary of serial) bytes =
        w.now.set (.temporary of serial) (some (.regular (c ++ bytes) true)) := by
    intro w c bytes hfile
    rw [Disk.append, hfile]
  have hstep : ∀ (w : World) (c bytes : Bytes),
      w.now.nodes (.temporary of serial) = some (.regular c true) →
      Moves (WriteStep d₀ path contents) w
        (w.become (w.now.append (.temporary of serial) bytes)) ∧
      w.now.Same (w.now.append (.temporary of serial) bytes) := by
    intro w c bytes hfile
    rw [happend w c bytes hfile]
    exact ⟨.single (.scratch _ _ _ _), (Disk.Same.refl _).set_temporary _ _ _⟩
  induction replies, data, w using writeLoop.induct (.temporary of serial) generalizing c with
  | case1 replies w =>
    obtain ⟨rfl, rfl⟩ : none = error ∧ w = w' := by simpa [writeLoop] using h
    exact ⟨.refl, .refl _, fun _ => by rw [hfile, List.append_nil]⟩
  | case2 data w hne =>
    obtain ⟨rfl, rfl⟩ : none = error ∧ _ = w' := by simpa [writeLoop] using h
    obtain ⟨hmoves, hsame⟩ := hstep w c data hfile
    refine ⟨hmoves, hsame, fun _ => ?_⟩
    rw [History.become_now, happend w c data hfile, Disk.set_self]
  | case3 replies data w hne ih => exact ih hfile (by simpa [writeLoop] using h)
  | case4 replies error' data w hne =>
    obtain ⟨rfl, rfl⟩ : some _ = error ∧ w = w' := by simpa [writeLoop] using h
    exact ⟨.refl, .refl _, fun h => nomatch h⟩
  | case5 replies data w hne =>
    obtain ⟨rfl, rfl⟩ : some _ = error ∧ w = w' := by simpa [writeLoop] using h
    exact ⟨.refl, .refl _, fun h => nomatch h⟩
  | case6 count replies data w hne hpos ih =>
    obtain ⟨hmoves, hsame⟩ := hstep w c (data.take count) hfile
    have hnow : (w.become (w.now.append (.temporary of serial) (data.take count))).now.nodes
        (.temporary of serial) = some (.regular (c ++ data.take count) true) := by
      rw [History.become_now, happend w c _ hfile, Disk.set_self]
    obtain ⟨hrest, hsame', hdone⟩ := ih hnow (by simpa [writeLoop] using h)
    refine ⟨hmoves.trans hrest, hsame.trans hsame', fun hnone => ?_⟩
    rw [hdone hnone, List.append_assoc, List.take_append_drop]

theorem writePrivateTempFile_spec {f : WriteFaults} {error : Option String}
    (h : writePrivateTempFile f (.temporary of serial) contents w = (error, w')) :
    Moves (WriteStep d₀ path contents) w w' ∧ w.now.Same w'.now ∧
      (error = none → w'.now.nodes (.temporary of serial) = some (.regular contents true)) := by
  unfold writePrivateTempFile at h
  cases hcreate : createReply f (.temporary of serial) w.now with
  | some e =>
    obtain ⟨rfl, rfl⟩ : some _ = error ∧ w = w' := by simpa [hcreate] using h
    exact ⟨.refl, .refl _, fun h => nomatch h⟩
  | none =>
    simp only [hcreate] at h
    generalize hw₀ : w.become (w.now.set (.temporary of serial) (some (.regular [] true))) = w₀ at h
    have hcreated : Moves (WriteStep d₀ path contents) w w₀ :=
      hw₀ ▸ Moves.single (.scratch _ _ _ _)
    have hsame₀ : w.now.Same w₀.now := hw₀ ▸ (Disk.Same.refl _).set_temporary _ _ _
    have hempty : w₀.now.nodes (.temporary of serial) = some (.regular [] true) := by
      rw [← hw₀]
      exact Disk.set_self
    cases hloop : writeLoop (.temporary of serial) f.writes contents w₀ with
    | mk e w₁ =>
      obtain ⟨hmoves, hsame, hdone⟩ := writeLoop_spec hempty hloop
      have hmoves := hcreated.trans hmoves
      have hsame := hsame₀.trans hsame
      rw [hloop] at h
      cases e with
      | some e =>
        obtain ⟨rfl, rfl⟩ : some _ = error ∧ w₁ = w' := by simpa using h
        exact ⟨hmoves, hsame, fun h => nomatch h⟩
      | none =>
        -- neither sync nor close touches the file
        have hw : w' = w₁ := by
          cases hsync : f.sync <;> cases hclose : f.close <;> simp [hsync, hclose] at h <;>
            exact h.2.symm
        rw [hw]
        exact ⟨hmoves, hsame, fun _ => by rw [hdone rfl, List.nil_append]⟩

theorem cleanup_spec (f : WriteFaults) (w : World) :
    Moves (WriteStep d₀ path contents) w (cleanup f (.temporary of serial) w) ∧
      w.now.Same (cleanup f (.temporary of serial) w).now := by
  unfold cleanup
  split
  · exact ⟨.refl, .refl _⟩
  · exact ⟨.single (.scratch _ _ _ _), (Disk.Same.refl _).set_temporary _ _ _⟩

/-- A whole write that fails has changed nothing that others know by name. One that does not
    fail has changed the file at the path, from what it was to the new contents. -/
theorem atomicWriteTextFile_spec {f : WriteFaults} {error : Option String}
    (h : atomicWriteTextFile f path contents w = (error, w')) :
    Moves (WriteStep w.now path contents) w w' ∧
      if error = none then
        (w.now.set (.named path) (some (.regular contents true))).Same w'.now
      else w.now.Same w'.now := by
  unfold atomicWriteTextFile at h
  by_cases hpath : path = "" ∨ filename path = ""
  · obtain ⟨rfl, rfl⟩ : some _ = error ∧ w = w' := by simpa [hpath] using h
    exact ⟨.refl, .refl _⟩
  rw [if_neg hpath] at h
  generalize hmkdir : (if parentPath path = "" then none else f.mkdir) = mkdir at h
  cases mkdir with
  | some e =>
    obtain ⟨rfl, rfl⟩ : some _ = error ∧ w = w' := by simpa using h
    exact ⟨.refl, .refl _⟩
  | none =>
    simp only at h
    cases hwrite : writePrivateTempFile f (.temporary path w.now.serial) contents
        (w.become w.now.draw) with
    | mk e w₁ =>
      obtain ⟨hmoves, hsame, hdone⟩ := @writePrivateTempFile_spec w.now path path contents _ _ _ _ _ hwrite
      have hmoves : Moves (WriteStep w.now path contents) w w₁ := (Moves.single (.draw _)).trans hmoves
      have hsame : w.now.Same w₁.now := hsame
      obtain ⟨hclean, hsame'⟩ := @cleanup_spec w.now path path contents w.now.serial f w₁
      rw [hwrite] at h
      cases e with
      | some e =>
        obtain ⟨rfl, rfl⟩ : some _ = error ∧ _ = w' := by simpa using h
        exact ⟨hmoves.trans hclean, hsame.trans hsame'⟩
      | none =>
        cases hreplace : f.replace with
        | some e =>
          obtain ⟨rfl, rfl⟩ : some _ = error ∧ _ = w' := by simpa [hreplace] using h
          exact ⟨hmoves.trans hclean, hsame.trans hsame'⟩
        | none =>
          obtain ⟨rfl, rfl⟩ : none = error ∧ _ = w' := by simpa [hreplace] using h
          refine ⟨hmoves.step (.replace hsame (hdone rfl)), ?_⟩
          rw [if_pos rfl]
          intro p hp
          have hne : p ≠ .temporary path w.now.serial := fun heq => hp (heq ▸ trivial)
          by_cases hnamed : p = .named path
          · rw [hnamed, Disk.set_self, History.become_now,
              Disk.rename_destination (fun h => Path.noConfusion h), hdone rfl]
          · rw [Disk.set_of_ne hnamed, History.become_now, Disk.rename_of_ne hne hnamed, hsame p hp]

/-- Without faults the write succeeds. -/
theorem atomicWriteTextFile_succeeds (hpath : path ≠ "" ∧ filename path ≠ "")
    (hfresh : w.now.nodes (.temporary path w.now.serial) = none) (contents : Bytes) :
    (atomicWriteTextFile {} path contents w).1 = none := by
  have hcreate : createReply {} (.temporary path w.now.serial) (w.become w.now.draw).now = none := by
    simp [createReply, hfresh]
  have hloop : ∀ (p : Path) (w : World), (writeLoop p [] contents w).1 = none := by
    intro p w
    cases contents <;> rfl
  rw [atomicWriteTextFile, if_neg (by simp [hpath])]
  simp only [ite_self, writePrivateTempFile, hcreate]
  generalize hw₁ : writeLoop _ _ _ _ = result
  have hnone := hloop (.temporary path w.now.serial)
    ((w.become w.now.draw).become
      (w.now.draw.set (.temporary path w.now.serial) (some (.regular [] true))))
  obtain ⟨error, w₁⟩ := result
  obtain rfl : error = none := by
    rw [← hnone]
    exact (congrArg Prod.fst hw₁).symm
  rfl

/-! ## What moving to a backup does -/

/-- The name of a backup of `d` that is not there yet. -/
def Disk.Fresh (d : Disk) : Prop :=
  ∀ of tag serial, d.serial ≤ serial → d.nodes (.backup of tag serial) = none

theorem moveFileToRecoveryBackup_spec {fault : Option String} {tag : String}
    {result : Except String Path} (h : moveFileToRecoveryBackup fault path tag w = (result, w')) :
    (∃ error, result = .error error ∧ (w' = w ∨ w' = w.become w.now.draw)) ∨
      result = .ok (.backup path tag w.now.serial) ∧
        w' = (w.become w.now.draw).become
          (w.now.draw.rename (.named path) (.backup path tag w.now.serial)) := by
  unfold moveFileToRecoveryBackup at h
  split at h
  · obtain ⟨rfl, rfl⟩ := Prod.mk.inj h
    exact .inl ⟨_, rfl, .inl rfl⟩
  cases fault with
  | some e =>
    obtain ⟨rfl, rfl⟩ := Prod.mk.inj h
    exact .inl ⟨_, rfl, .inr rfl⟩
  | none =>
    obtain ⟨rfl, rfl⟩ := Prod.mk.inj h
    exact .inr ⟨rfl, rfl⟩

/-! ## What reading finds

Missing, read, and not readable are three different things, and the loaders treat them
differently. -/

/-- Every way `readFile` can come out, with what it has seen. -/
inductive ReadsAs (f : ReadFaults) (path : String) (d : Disk) : FileRead → Prop
  | stat {error : String} (stat : f.stat = some error) : ReadsAs f path d (.unreadable error)
  | missing (stat : f.stat = none) (node : d.nodes (.named path) = none) : ReadsAs f path d .missing
  | other (stat : f.stat = none) (node : d.nodes (.named path) = some .other) :
      ReadsAs f path d (.unreadable "path is not a regular file")
  | shut {content : Bytes} {opens : Bool} (stat : f.stat = none)
      (node : d.nodes (.named path) = some (.regular content opens))
      (shut : f.opening = true ∨ opens = false) : ReadsAs f path d (.unreadable "could not open file")
  | broken {content : Bytes} {error : String} (stat : f.stat = none)
      (node : d.nodes (.named path) = some (.regular content true)) (opening : f.opening = false)
      (reading : f.reading = some error) : ReadsAs f path d (.broken error)
  | content {content : Bytes} (stat : f.stat = none)
      (node : d.nodes (.named path) = some (.regular content true)) (opening : f.opening = false)
      (reading : f.reading = none) : ReadsAs f path d (.content content)

theorem readFile_reads (f : ReadFaults) (path : String) (d : Disk) :
    ReadsAs f path d (readFile f path d) := by
  unfold readFile
  cases hstat : f.stat with
  | some e => exact .stat hstat
  | none =>
    match hnode : d.nodes (.named path) with
    | none => exact .missing hstat hnode
    | some .other => exact .other hstat hnode
    | some (.regular content opens) =>
      by_cases hshut : f.opening = true ∨ opens = false
      · simp only [if_pos hshut]
        exact .shut hstat hnode hshut
      · obtain ⟨hopening, hopens⟩ := not_or.mp hshut
        obtain rfl : opens = true := by simpa using hopens
        simp only [if_neg hshut]
        cases hreading : f.reading with
        | some e => exact .broken hstat hnode (by simpa using hopening) hreading
        | none => exact .content hstat hnode (by simpa using hopening) hreading

end Settings
end Kiko
