import Kiko.Lib.KeyMap
import Kiko.Lib.LexicalPath
import Kiko.Lib.Transition
import Kiko.Transfer.Wire

/-!
# Uploads from the browser (`web/web_upload`)

The store stages each upload in a file of its own and keeps beside it what is expected and what
has been received. The disk is modelled by the contents of its files and the bytes that are
free, of which only contents count; nobody else writes to it.

What the environment decides is the label of an operation (`StartEnv`, `AppendEnv`): the clock,
the random ids, whether a file can be created, removed or opened, and how much of a chunk is
written. A write that fails is rolled back by cutting the file to the confirmed length; the runs
considered are those in which that works (`UploadOp.RollsBack`).

Two fields of an upload are for the statements: the chunks accepted so far, and a serial number
that tells it from a later upload under the same id.

The store promises space when an upload is started and spends it chunk by chunk, with other
uploads between. What it has promised is not kept as a number: it is summed over the uploads
each time it is needed, so the invariant is about the sum and the operations about its changes.
-/

set_option autoImplicit false

namespace Kiko
namespace Web

open Transfer Lexical

/-! ## The disk

Contents by path and one number of free bytes. A write takes from the number what it adds to a
file, a removal gives it back. -/

/-- A staged file is named by its directory below the root of the store and its own name. -/
abbrev StagedPath := String × String

structure Disk where
  files : StagedPath → Option Bytes := fun _ => none
  available : Nat

namespace Disk

def size (d : Disk) (path : StagedPath) : Nat := ((d.files path).getD []).length

def remove (d : Disk) (path : StagedPath) : Disk where
  files := Function.update d.files path none
  available := d.available + d.size path

/-- Opening with `trunc`. -/
def truncate (d : Disk) (path : StagedPath) : Disk where
  files := Function.update d.files path (some [])
  available := d.available + d.size path

def write (d : Disk) (path : StagedPath) (bytes : Bytes) : Disk where
  files := Function.update d.files path (some ((d.files path).getD [] ++ bytes))
  available := d.available - bytes.length

/-- `resize_file` to at most the size there is. -/
def resize (d : Disk) (path : StagedPath) (length : Nat) : Disk where
  files := Function.update d.files path (some (((d.files path).getD []).take length))
  available := d.available + (d.size path - length)

end Disk

/-! ## The store -/

structure WebUploadLimits where
  maxActiveUploads : Nat := 8
  freeSpaceReserveBytes : Nat := 64 * 1024 * 1024
  /-- In seconds. -/
  idleTtl : Int := 3600

def kMaxUploadChunkBytes : Nat := 768 * 1024

structure Upload where
  path : StagedPath
  expected : Nat
  received : Nat := 0
  finished : Bool := false
  updatedAt : Int
  chunks : List Bytes := []
  serial : Nat

structure CompletedWebUpload where
  id : String
  path : StagedPath
  size : Nat

structure UploadStore where
  uploads : List (String × Upload) := []
  disk : Disk
  started : Nat := 0

structure StartEnv where
  now : Int
  removed : String → Bool := fun _ => true
  spaceFails : Bool := false
  ids : List String
  mkdirFails : Option String := none
  openFails : Bool := false
  startedAt : Int

inductive WriteOutcome
  | whole
  | failed (written : Nat) (rolledBack : Bool)

structure AppendEnv where
  sizeFails : Bool := false
  openFails : Bool := false
  write : WriteOutcome := .whole
  now : Int

/-- `safe_filename`. -/
def safeFilename (filename : String) : Option String :=
  if filename = "" ∨ '\x00' ∈ filename.toList then none
  else
    let safe := (FsPath.ofString filename).filename
    if safe = "" ∨ safe = "." ∨ safe = ".." then none else some safe

/-- An upload that `purge_expired` leaves. -/
def WebUploadLimits.keeps (limits : WebUploadLimits) (now : Int) (upload : Upload) : Bool :=
  0 < limits.idleTtl && now - upload.updatedAt ≤ limits.idleTtl * 1000000000

/-- `reserved_remaining_bytes`, from `total` on. -/
def reservedRemainingBytes (total : Nat) : List (String × Upload) → Nat
  | [] => total
  | (_, upload) :: rest =>
    let remaining := upload.expected - upload.received
    if u64Max - total < remaining then u64Max else reservedRemainingBytes (total + remaining) rest

namespace UploadStore

/-- `erase_upload`. The file may be one that cannot be removed. -/
def eraseUpload (s : UploadStore) (removed : Bool) (id : String) (upload : Upload) : UploadStore :=
  { s with
    disk := if removed then s.disk.remove upload.path else s.disk
    uploads := s.uploads.filter (·.1 ≠ id) }

/-- `Impl::purge_expired`. -/
def purgeExpired (s : UploadStore) (limits : WebUploadLimits) (now : Int)
    (removed : String → Bool) : UploadStore :=
  s.uploads.foldl (fun s entry =>
    if limits.keeps now entry.2 then s else s.eraseUpload (removed entry.1) entry.1 entry.2) s

/-- The entry `start` makes, with its empty file. -/
def insertUpload (s : UploadStore) (id safe : String) (size : Nat) (now : Int) : UploadStore where
  disk := s.disk.truncate (id, safe)
  uploads := KeyMap.assign id
    { path := (id, safe), expected := size, updatedAt := now, serial := s.started } s.uploads
  started := s.started + 1

/-- `start`, behind the name. `ids` are what `random_id` gives, and the loop takes the first that
    is not in use. -/
def startSafe (s : UploadStore) (limits : WebUploadLimits) (safe : String) (size : Nat)
    (env : StartEnv) : Option (UploadStore × Except KikoError String) :=
  let s := s.purgeExpired limits env.now env.removed
  let usable := min s.disk.available u64Max - limits.freeSpaceReserveBytes
  let reserved := reservedRemainingBytes 0 s.uploads
  if limits.maxActiveUploads ≤ s.uploads.length then
    some (s, .error "too many active browser uploads")
  else if env.spaceFails then
    some (s, .error "could not inspect free space for browser upload")
  else if 0 < size ∧ (usable < size ∨ usable - size < reserved) then
    some (s, .error "not enough unreserved space to stage selected file")
  else match env.ids.find? (fun id => (s.uploads.lookup id).isNone), env.mkdirFails with
    | none, _ => none
    | some _, some message => some (s, .error ("could not create upload directory: " ++ message))
    | some id, none =>
      if env.openFails then some (s, .error "could not create staged upload file")
      else some (s.insertUpload id safe size env.startedAt, .ok id)

/-- `start`. -/
def start (s : UploadStore) (limits : WebUploadLimits) (filename : String) (size : Nat)
    (env : StartEnv) : Option (UploadStore × Except KikoError String) :=
  match safeFilename filename with
  | none => some (s, .error "upload filename is invalid")
  | some safe => s.startSafe limits safe size env

/-- The end of `append`: the chunk is written, or not all of it is. The disk does not take more
    than it has. -/
def appendChunk (s : UploadStore) (id : String) (upload : Upload) (bytes : Bytes)
    (env : AppendEnv) : Option (UploadStore × Except KikoError Unit) :=
  match env.write with
  | .whole =>
    if s.disk.available < bytes.length then none
    else
      let upload :=
        { upload with
          received := upload.received + bytes.length
          updatedAt := env.now
          chunks := upload.chunks ++ [bytes] }
      some ({ s with
        disk := s.disk.write upload.path bytes
        uploads := KeyMap.assign id upload s.uploads }, .ok ())
  | .failed written rolledBack =>
    let part := bytes.take written
    if s.disk.available < part.length then none
    else
      let disk := s.disk.write upload.path part
      if rolledBack then
        some ({ s with disk := disk.resize upload.path upload.received },
          .error "could not write staged upload file")
      else
        some ({ s with disk },
          .error "could not write staged upload file; partial upload could not be rolled back")

/-- `append`. -/
def append (s : UploadStore) (id : String) (offset : Nat) (bytes : Bytes) (env : AppendEnv) :
    Option (UploadStore × Except KikoError Unit) :=
  if kMaxUploadChunkBytes < bytes.length then
    some (s, .error "upload chunk exceeds 768 KiB limit")
  else match s.uploads.lookup id with
    | none => some (s, .error "upload not found")
    | some upload =>
      if upload.finished then some (s, .error "upload is already complete")
      else if offset ≠ upload.received then some (s, .error "upload chunk offset mismatch")
      else if upload.expected - upload.received < bytes.length then
        some (s, .error "upload exceeds declared size")
      else if env.sizeFails || (s.disk.files upload.path).isNone ||
          s.disk.size upload.path != upload.received then
        some (s, .error "staged upload size no longer matches confirmed offset")
      else if env.openFails then some (s, .error "could not open staged upload file")
      else s.appendChunk id upload bytes env

/-- `finish`. -/
def finish (s : UploadStore) (id : String) (now : Int) :
    UploadStore × Except KikoError CompletedWebUpload :=
  match s.uploads.lookup id with
  | none => (s, .error "upload not found")
  | some upload =>
    if upload.received ≠ upload.expected then (s, .error "upload is incomplete")
    else
      ({ s with
        uploads := KeyMap.assign id { upload with finished := true, updatedAt := now } s.uploads },
        .ok ⟨id, upload.path, upload.expected⟩)

/-- `completed_path`. The clock is read for the purge and again for the upload. -/
def completedPath (s : UploadStore) (limits : WebUploadLimits) (id : String) (now now' : Int)
    (removed : String → Bool) : UploadStore × Except KikoError StagedPath :=
  let s := s.purgeExpired limits now removed
  match s.uploads.lookup id with
  | none => (s, .error "completed upload not found")
  | some upload =>
    if !upload.finished then (s, .error "completed upload not found")
    else ({ s with uploads := KeyMap.assign id { upload with updatedAt := now' } s.uploads },
      .ok upload.path)

/-- `release`. -/
def release (s : UploadStore) (id : String) : UploadStore :=
  { s with uploads := s.uploads.filter (·.1 ≠ id) }

/-- `cancel`. -/
def cancel (s : UploadStore) (id : String) (removed : Bool) : UploadStore :=
  match s.uploads.lookup id with
  | none => s
  | some upload => s.eraseUpload removed id upload

end UploadStore

/-! ## Runs

Operations in any order, each with what the environment decides for it. A write may be cut short
anywhere, and then it is rolled back or the run is not one of those considered. -/

inductive UploadOp
  | start (filename : String) (size : Nat) (env : StartEnv)
  | append (id : String) (offset : Nat) (bytes : Bytes) (env : AppendEnv)
  | finish (id : String) (now : Int)
  | completedPath (id : String) (now now' : Int) (removed : String → Bool)
  | release (id : String)
  | cancel (id : String) (removed : Bool)
  | purgeExpired (now : Int) (removed : String → Bool)

def UploadStore.step (limits : WebUploadLimits) (s : UploadStore) : UploadOp → Option UploadStore
  | .start filename size env => (s.start limits filename size env).map Prod.fst
  | .append id offset bytes env => (s.append id offset bytes env).map Prod.fst
  | .finish id now => some (s.finish id now).1
  | .completedPath id now now' removed => some (s.completedPath limits id now now' removed).1
  | .release id => some (s.release id)
  | .cancel id removed => some (s.cancel id removed)
  | .purgeExpired now removed => some (s.purgeExpired limits now removed)

/-- The roll-back of a failed write succeeds. -/
def WriteOutcome.RollsBack : WriteOutcome → Prop
  | .whole => True
  | .failed _ rolledBack => rolledBack = true

def UploadOp.RollsBack : UploadOp → Prop
  | .append _ _ _ env => env.write.RollsBack
  | _ => True

instance : (write : WriteOutcome) → Decidable write.RollsBack
  | .whole => inferInstanceAs (Decidable True)
  | .failed _ rolledBack => inferInstanceAs (Decidable (rolledBack = true))

instance : (op : UploadOp) → Decidable op.RollsBack
  | .append _ _ _ env => inferInstanceAs (Decidable env.write.RollsBack)
  | .start .. => inferInstanceAs (Decidable True)
  | .finish .. => inferInstanceAs (Decidable True)
  | .completedPath .. => inferInstanceAs (Decidable True)
  | .release _ => inferInstanceAs (Decidable True)
  | .cancel .. => inferInstanceAs (Decidable True)
  | .purgeExpired .. => inferInstanceAs (Decidable True)

/-! ## What holds between operations

Each upload and its file agree, no two have one serial number, and what is promised is there. -/

variable {limits : WebUploadLimits} {s s' s'' : UploadStore} {id : String} {upload : Upload}
  {op : UploadOp}

/-- The bytes live uploads have been promised and have not sent. -/
def promised (uploads : List (String × Upload)) : Nat :=
  (uploads.map fun entry => entry.2.expected - entry.2.received).sum

/-- An upload and its file. -/
structure Staged (disk : Disk) (started : Nat) (entry : String × Upload) : Prop where
  dir : entry.2.path.1 = entry.1
  file : disk.files entry.2.path = some entry.2.chunks.flatten
  received : entry.2.received = entry.2.chunks.flatten.length
  fits : entry.2.received ≤ entry.2.expected
  finished : entry.2.finished → entry.2.received = entry.2.expected
  serial : entry.2.serial < started

structure Sound (limits : WebUploadLimits) (s : UploadStore) : Prop where
  map : KeyMap.IsMap s.uploads
  staged : ∀ entry ∈ s.uploads, Staged s.disk s.started entry
  serials : ∀ entry ∈ s.uploads, ∀ entry' ∈ s.uploads,
    entry.2.serial = entry'.2.serial → entry.1 = entry'.1
  count : s.uploads.length ≤ limits.maxActiveUploads
  space : promised s.uploads ≤ s.disk.available - limits.freeSpaceReserveBytes

theorem promised_perm {l l' : List (String × Upload)} (h : l.Perm l') : promised l = promised l' :=
  (h.map _).sum_eq

theorem promised_filter_le (p : String × Upload → Bool) (l : List (String × Upload)) :
    promised (l.filter p) ≤ promised l :=
  (l.filter_sublist.map _).sum_le_sum fun _ _ => Nat.zero_le _

theorem Sound.init (available : Nat) : Sound limits { disk := { available } } where
  map := KeyMap.isMap_nil
  staged := by
    intro entry h
    cases h
  serials := by
    intro entry h
    cases h
  count := Nat.zero_le _
  space := Nat.zero_le _

/-- An upload is dropped, and the disk changes at most in its directory, to have more space. -/
theorem Sound.drop (h : Sound limits s) {disk : Disk}
    (hfiles : ∀ path, path.1 ≠ id → disk.files path = s.disk.files path)
    (havailable : s.disk.available ≤ disk.available) :
    Sound limits { s with disk, uploads := s.uploads.filter (·.1 ≠ id) } where
  map := h.map.filter _
  staged := by
    intro entry hentry
    obtain ⟨hmem, hne⟩ := List.mem_filter.mp hentry
    have hstaged := h.staged entry hmem
    have hdir : entry.2.path.1 ≠ id := by
      rw [hstaged.dir]
      simpa using hne
    exact { hstaged with file := (hfiles _ hdir).trans hstaged.file }
  serials := by
    intro entry hentry entry' hentry'
    exact h.serials entry (List.mem_filter.mp hentry).1 entry' (List.mem_filter.mp hentry').1
  count := (List.length_filter_le _ _).trans h.count
  space := by
    refine (promised_filter_le _ _).trans (h.space.trans ?_)
    exact Nat.sub_le_sub_right havailable _

theorem Sound.eraseUpload (h : Sound limits s) (hdir : upload.path.1 = id) (removed : Bool) :
    Sound limits (s.eraseUpload removed id upload) := by
  refine h.drop ?_ ?_
  · intro path hpath
    cases removed with
    | false => rfl
    | true =>
      refine Function.update_of_ne ?_ _ _
      rintro rfl
      exact hpath hdir
  · cases removed with
    | false => exact le_rfl
    | true => exact Nat.le_add_right _ _

theorem Sound.purgeExpired (h : Sound limits s) (now : Int) (removed : String → Bool) :
    Sound limits (s.purgeExpired limits now removed) := by
  -- the loop goes over the entries there were; each lies in its own directory
  have hloop : ∀ (entries : List (String × Upload)) (s : UploadStore), Sound limits s →
      (∀ entry ∈ entries, entry.2.path.1 = entry.1) →
      Sound limits (entries.foldl (fun s entry =>
        if limits.keeps now entry.2 then s
        else s.eraseUpload (removed entry.1) entry.1 entry.2) s) := by
    intro entries
    induction entries with
    | nil =>
      intro s h _
      exact h
    | cons entry entries ih =>
      intro s h hdirs
      rw [List.foldl_cons]
      refine ih _ ?_ fun e he => hdirs e (List.mem_cons_of_mem _ he)
      split
      · exact h
      · exact h.eraseUpload (hdirs entry (List.mem_cons_self ..)) _
  exact hloop s.uploads s h fun entry hentry => (h.staged entry hentry).dir

/-- As long as the sum fits, it is the sum. -/
theorem reservedRemainingBytes_eq {total : Nat} {entries : List (String × Upload)}
    (h : reservedRemainingBytes total entries < u64Max) :
    reservedRemainingBytes total entries = total + promised entries := by
  induction entries generalizing total with
  | nil => rfl
  | cons entry entries ih =>
    rw [reservedRemainingBytes] at h ⊢
    split at h
    · exact absurd h (lt_irrefl _)
    · rename_i hfits
      rw [if_neg hfits, ih h, promised, promised, List.map_cons, List.sum_cons, Nat.add_assoc]

/-- **A new upload is promised what is left.** -/
theorem Sound.insertUpload (h : Sound limits s) {safe : String} {size : Nat} {now : Int}
    (hcount : s.uploads.length < limits.maxActiveUploads) (hid : s.uploads.lookup id = none)
    (hsize : promised s.uploads + size ≤ s.disk.available - limits.freeSpaceReserveBytes) :
    Sound limits (s.insertUpload id safe size now) := by
  have hperm := h.map.assign_perm id
    { path := (id, safe), expected := size, updatedAt := now, serial := s.started : Upload }
  have hall : s.uploads.filter (fun entry => entry.1 ≠ id) = s.uploads := by
    refine List.filter_eq_self.mpr fun entry hentry => ?_
    have hne := KeyMap.lookup_eq_none_iff_notMem.mp hid
    have : entry.1 ≠ id := fun heq => hne (List.mem_map.mpr ⟨entry, hentry, heq⟩)
    simpa using this
  rw [hall] at hperm
  refine ⟨h.map.assign _ _, ?_, ?_, ?_, ?_⟩
  · intro entry hentry
    obtain rfl | hmem := List.mem_cons.mp (hperm.mem_iff.mp hentry)
    · refine ⟨rfl, Function.update_self .., rfl, Nat.zero_le _, ?_, Nat.lt_succ_self _⟩
      intro hfinished
      cases hfinished
    · have hstaged := h.staged entry hmem
      have hne : entry.2.path ≠ (id, safe) := by
        intro heq
        have hentry : entry.1 = id := by rw [← hstaged.dir, heq]
        exact KeyMap.lookup_eq_none_iff_notMem.mp hid (List.mem_map.mpr ⟨entry, hmem, hentry⟩)
      exact { hstaged with
        file := (Function.update_of_ne hne _ _).trans hstaged.file
        serial := Nat.lt_succ_of_lt hstaged.serial }
  · intro entry hentry entry' hentry' heq
    obtain rfl | hmem := List.mem_cons.mp (hperm.mem_iff.mp hentry)
    · obtain rfl | hmem' := List.mem_cons.mp (hperm.mem_iff.mp hentry')
      · rfl
      · exact absurd heq.symm (h.staged entry' hmem').serial.ne
    · obtain rfl | hmem' := List.mem_cons.mp (hperm.mem_iff.mp hentry')
      · exact absurd heq (h.staged entry hmem).serial.ne
      · exact h.serials entry hmem entry' hmem' heq
  · have hlength := hperm.length_eq
    rw [List.length_cons] at hlength
    have hnow : (s.insertUpload id safe size now).uploads.length = s.uploads.length + 1 := hlength
    omega
  · have hsum : promised (s.insertUpload id safe size now).uploads = size + promised s.uploads :=
      promised_perm hperm
    have havailable : s.disk.available ≤ (s.insertUpload id safe size now).disk.available :=
      Nat.le_add_right _ _
    omega

/-- **An upload goes on by `n` bytes**, which its file takes from the free space. -/
theorem Sound.update (h : Sound limits s) (hid : s.uploads.lookup id = some upload) {n : Nat}
    {upload' : Upload} {disk : Disk} (hpath : upload'.path = upload.path)
    (hserial : upload'.serial = upload.serial) (hexpected : upload'.expected = upload.expected)
    (hreceived : upload'.received = upload.received + n)
    (hlength : upload'.received = upload'.chunks.flatten.length)
    (hfits : upload'.received ≤ upload'.expected)
    (hfinished : upload'.finished → upload'.received = upload'.expected)
    (hfile : disk.files upload.path = some upload'.chunks.flatten)
    (hfiles : ∀ path, path ≠ upload.path → disk.files path = s.disk.files path)
    (havailable : disk.available = s.disk.available - n) :
    Sound limits { s with disk, uploads := KeyMap.assign id upload' s.uploads } := by
  have hbefore := h.map.perm_of_lookup hid
  have hafter := h.map.assign_perm id upload'
  have hmem : (id, upload) ∈ s.uploads := h.map.lookup_eq_some.mp hid
  have hstaged := h.staged _ hmem
  -- all other uploads are as they were, with their files
  have hrest {entry : String × Upload} (he : entry ∈ s.uploads.filter (·.1 ≠ id)) :
      entry ∈ s.uploads ∧ entry.1 ≠ id := by
    obtain ⟨hentry, hne⟩ := List.mem_filter.mp he
    exact ⟨hentry, by simpa using hne⟩
  refine ⟨h.map.assign _ _, ?_, ?_, ?_, ?_⟩
  · intro entry hentry
    obtain rfl | he := List.mem_cons.mp (hafter.mem_iff.mp hentry)
    · refine ⟨?_, ?_, hlength, hfits, hfinished, ?_⟩
      · rw [hpath]
        exact hstaged.dir
      · rw [hpath]
        exact hfile
      · rw [hserial]
        exact hstaged.serial
    · obtain ⟨hentry, hne⟩ := hrest he
      have hother := h.staged entry hentry
      refine { hother with file := (hfiles _ ?_).trans hother.file }
      intro heq
      exact hne (by rw [← hother.dir, heq, hstaged.dir])
  · -- the serial numbers are the ones there were
    have hold {entry : String × Upload} (hentry : entry ∈ KeyMap.assign id upload' s.uploads) :
        ∃ old ∈ s.uploads, old.1 = entry.1 ∧ old.2.serial = entry.2.serial := by
      obtain rfl | he := List.mem_cons.mp (hafter.mem_iff.mp hentry)
      · exact ⟨_, hmem, rfl, hserial.symm⟩
      · exact ⟨entry, (hrest he).1, rfl, rfl⟩
    intro entry hentry entry' hentry' heq
    obtain ⟨old, hold₁, hkey, hs⟩ := hold hentry
    obtain ⟨old', hold₂, hkey', hs'⟩ := hold hentry'
    rw [← hkey, ← hkey']
    exact h.serials old hold₁ old' hold₂ (hs.trans (heq.trans hs'.symm))
  · have hsame := hafter.length_eq.trans hbefore.length_eq.symm
    exact hsame.trans_le h.count
  -- what the upload has taken it is promised no longer
  · have hspace := h.space
    rw [promised_perm hbefore] at hspace
    have hsum := promised_perm hafter
    simp only [promised, List.map_cons, List.sum_cons] at hspace hsum
    rw [promised, hsum, havailable]
    omega

theorem Sound.startSafe {safe : String} {size : Nat} {env : StartEnv}
    {result : Except KikoError String} (h : Sound limits s)
    (hs : s.startSafe limits safe size env = some (s', result)) : Sound limits s' := by
  have hpurged := h.purgeExpired env.now env.removed
  unfold UploadStore.startSafe at hs
  dsimp only at hs
  generalize s.purgeExpired limits env.now env.removed = s at hs hpurged
  split at hs
  · cases hs
    exact hpurged
  rename_i hcount
  split at hs
  · cases hs
    exact hpurged
  split at hs
  · cases hs
    exact hpurged
  rename_i hroom
  split at hs
  · cases hs
  · cases hs
    exact hpurged
  rename_i id hfind _
  split at hs
  · cases hs
    exact hpurged
  cases hs
  have hid : s.uploads.lookup id = none := by
    have hpred := List.find?_some hfind
    simpa using hpred
  refine hpurged.insertUpload (not_le.mp hcount) hid ?_
  -- what is reserved is the sum, as it leaves room in what the system reports
  by_cases hzero : size = 0
  · rw [hzero, Nat.add_zero]
    exact hpurged.space
  · have hroom : ¬ (_ ∨ _) := fun hor => hroom ⟨Nat.pos_of_ne_zero hzero, hor⟩
    rw [not_or, not_lt, not_lt] at hroom
    have husable : min s.disk.available u64Max - limits.freeSpaceReserveBytes ≤ u64Max :=
      (Nat.sub_le _ _).trans (min_le_right _ _)
    have hreserved := @reservedRemainingBytes_eq 0 s.uploads (by omega)
    have hle : min s.disk.available u64Max - limits.freeSpaceReserveBytes ≤
        s.disk.available - limits.freeSpaceReserveBytes :=
      Nat.sub_le_sub_right (min_le_left _ _) _
    omega

/-- **Cutting a file to its old length takes back what was written behind it.** -/
theorem Disk.resize_write {d : Disk} {path : StagedPath} {content part : Bytes}
    (hfile : d.files path = some content) (hroom : part.length ≤ d.available) :
    (d.write path part).resize path content.length = d := by
  obtain ⟨files, available⟩ := d
  have hfile : files path = some content := hfile
  have hroom : part.length ≤ available := hroom
  unfold Disk.resize Disk.write Disk.size
  simp only [hfile, Option.getD_some, Function.update_self, Function.update_idem,
    List.take_left, List.length_append]
  congr 1
  · rw [← hfile]
    exact Function.update_eq_self path files
  · omega

/-- The two ways through `append`: nothing has changed, or the chunk goes to the file. -/
theorem append_cases {offset : Nat} {bytes : Bytes} {env : AppendEnv}
    {result : Except KikoError Unit} (hs : s.append id offset bytes env = some (s', result)) :
    (s' = s ∧ ∃ error, result = .error error) ∨
      ∃ upload, s.uploads.lookup id = some upload ∧ upload.finished = false ∧
        offset = upload.received ∧ bytes.length ≤ upload.expected - upload.received ∧
        s.appendChunk id upload bytes env = some (s', result) := by
  have hrefused {error : KikoError}
      (hs : some (s, (.error error : Except KikoError Unit)) = some (s', result)) :
      s' = s ∧ ∃ error, result = .error error := by
    cases hs
    exact ⟨rfl, error, rfl⟩
  unfold UploadStore.append at hs
  split at hs
  · exact .inl (hrefused hs)
  split at hs
  · exact .inl (hrefused hs)
  rename_i upload hid
  split at hs
  · exact .inl (hrefused hs)
  rename_i hfinished
  split at hs
  · exact .inl (hrefused hs)
  rename_i hoffset
  split at hs
  · exact .inl (hrefused hs)
  rename_i hfits
  split at hs
  · exact .inl (hrefused hs)
  split at hs
  · exact .inl (hrefused hs)
  exact .inr ⟨upload, hid, by simpa using hfinished, not_not.mp hoffset, not_lt.mp hfits, hs⟩

/-- What the end of `append` does, when a roll-back succeeds. -/
theorem Sound.appendChunk {bytes : Bytes} {env : AppendEnv} {result : Except KikoError Unit}
    (h : Sound limits s) (hid : s.uploads.lookup id = some upload)
    (hunfinished : upload.finished = false)
    (hfits : bytes.length ≤ upload.expected - upload.received) (hrolls : env.write.RollsBack)
    (hs : s.appendChunk id upload bytes env = some (s', result)) :
    Sound limits s' ∧ ∀ error, result = .error error → s' = s := by
  have hstaged := h.staged _ (h.map.lookup_eq_some.mp hid)
  have hfile := hstaged.file
  have hreceived := hstaged.received
  have hle := hstaged.fits
  dsimp only at hfile hreceived hle
  unfold UploadStore.appendChunk at hs
  split at hs
  · split at hs
    · cases hs
    cases hs
    refine ⟨?_, fun error herror => by cases herror⟩
    refine h.update (n := bytes.length) hid rfl rfl rfl rfl ?_ ?_ ?_ ?_ ?_ rfl
    · simp [hreceived]
    · dsimp only
      omega
    · intro hfinished
      exact absurd (hunfinished.symm.trans hfinished) (by decide)
    · refine (Function.update_self ..).trans ?_
      simp [hfile]
    · intro path hpath
      exact Function.update_of_ne hpath _ _
  · rename_i written rolledBack heq
    rw [heq] at hrolls
    obtain rfl : rolledBack = true := hrolls
    dsimp only at hs
    by_cases hroom : s.disk.available < (bytes.take written).length
    · rw [if_pos hroom] at hs
      cases hs
    have hback := Disk.resize_write hfile (not_lt.mp hroom)
    rw [← hreceived] at hback
    rw [if_neg hroom, if_pos rfl, hback] at hs
    cases hs
    exact ⟨h, fun _ _ => rfl⟩

/-- **A chunk that is not accepted leaves no trace.** -/
theorem Sound.append {offset : Nat} {bytes : Bytes} {env : AppendEnv}
    {result : Except KikoError Unit} (h : Sound limits s) (hrolls : env.write.RollsBack)
    (hs : s.append id offset bytes env = some (s', result)) :
    Sound limits s' ∧ ∀ error, result = .error error → s' = s := by
  obtain ⟨rfl, -⟩ | ⟨upload, hid, hunfinished, -, hfits, hs⟩ := append_cases hs
  · exact ⟨h, fun _ _ => rfl⟩
  · exact h.appendChunk hid hunfinished hfits hrolls hs

/-- **`finish` succeeds exactly on what is complete.** -/
theorem finish_ok_iff (hid : s.uploads.lookup id = some upload) (now : Int) :
    (∃ done, (s.finish id now).2 = .ok done) ↔ upload.received = upload.expected := by
  unfold UploadStore.finish
  rw [hid]
  dsimp only
  constructor
  · intro ⟨done, hdone⟩
    by_contra hne
    rw [if_pos hne] at hdone
    cases hdone
  · intro heq
    rw [if_neg (not_not.mpr heq)]
    exact ⟨_, rfl⟩

theorem Sound.finish (h : Sound limits s) (id : String) (now : Int) :
    Sound limits (s.finish id now).1 := by
  unfold UploadStore.finish
  split
  · exact h
  rename_i upload hid
  split
  · exact h
  rename_i hcomplete
  have hstaged := h.staged _ (h.map.lookup_eq_some.mp hid)
  exact h.update (n := 0) hid rfl rfl rfl rfl hstaged.received hstaged.fits
    (fun _ => not_not.mp hcomplete) hstaged.file (fun _ _ => rfl) rfl

theorem Sound.completedPath (h : Sound limits s) (id : String) (now now' : Int)
    (removed : String → Bool) : Sound limits (s.completedPath limits id now now' removed).1 := by
  have hpurged := h.purgeExpired now removed
  unfold UploadStore.completedPath
  dsimp only
  generalize s.purgeExpired limits now removed = s at hpurged
  split
  · exact hpurged
  rename_i upload hid
  split
  · exact hpurged
  have hstaged := hpurged.staged _ (hpurged.map.lookup_eq_some.mp hid)
  exact hpurged.update (n := 0) hid rfl rfl rfl rfl hstaged.received hstaged.fits hstaged.finished
    hstaged.file (fun _ _ => rfl) rfl

/-- **Every operation keeps the store sound.** -/
theorem Sound.step (h : Sound limits s) (hrolls : op.RollsBack) (hs : s.step limits op = some s') :
    Sound limits s' := by
  cases op with
  | start filename size env =>
    obtain ⟨⟨s', result⟩, hstart, rfl⟩ := Option.map_eq_some_iff.mp hs
    unfold UploadStore.start at hstart
    split at hstart
    · cases hstart
      exact h
    · exact h.startSafe hstart
  | append id offset bytes env =>
    obtain ⟨⟨s', result⟩, happend, rfl⟩ := Option.map_eq_some_iff.mp hs
    exact (h.append hrolls happend).1
  | finish id now =>
    cases hs
    exact h.finish id now
  | completedPath id now now' removed =>
    cases hs
    exact h.completedPath id now now' removed
  | release id =>
    cases hs
    exact h.drop (fun _ _ => rfl) le_rfl
  | cancel id removed =>
    cases hs
    unfold UploadStore.cancel
    split
    · exact h
    · rename_i upload hid
      exact h.eraseUpload (h.staged _ (h.map.lookup_eq_some.mp hid)).dir removed
  | purgeExpired now removed =>
    cases hs
    exact h.purgeExpired now removed

/-! ## After `finish`

A later upload may have the id of an earlier one. The serial number tells the two apart, so that
what is said of a finished upload is not said of its successor. -/

/-- The upload of this number is finished with these chunks, as long as it is there. -/
structure Closed (serial : Nat) (chunks : List Bytes) (s : UploadStore) : Prop where
  old : serial < s.started
  chunks : ∀ entry ∈ s.uploads, entry.2.serial = serial →
    entry.2.finished = true ∧ entry.2.chunks = chunks

variable {serial : Nat} {chunks : List Bytes}

theorem Closed.subset (h : Closed serial chunks s) (hstarted : s'.started = s.started)
    (hsub : s'.uploads ⊆ s.uploads) : Closed serial chunks s' where
  old := by
    rw [hstarted]
    exact h.old
  chunks := by
    intro entry hentry
    exact h.chunks entry (hsub hentry)

theorem purgeExpired_started (now : Int) (removed : String → Bool) :
    (s.purgeExpired limits now removed).started = s.started := by
  unfold UploadStore.purgeExpired
  refine List.foldlRecOn (motive := fun (s' : UploadStore) => s'.started = s.started) _ _ rfl ?_
  intro s' hs' entry _
  split
  · exact hs'
  · exact hs'

theorem purgeExpired_subset (now : Int) (removed : String → Bool) :
    (s.purgeExpired limits now removed).uploads ⊆ s.uploads := by
  unfold UploadStore.purgeExpired
  refine List.foldlRecOn (motive := fun (s' : UploadStore) => s'.uploads ⊆ s.uploads) _ _ (List.Subset.refl _) ?_
  intro s' hs' entry _
  split
  · exact hs'
  · exact List.Subset.trans List.filter_sublist.subset hs'

theorem Closed.purgeExpired (h : Closed serial chunks s) (now : Int) (removed : String → Bool) :
    Closed serial chunks (s.purgeExpired limits now removed) :=
  h.subset (purgeExpired_started now removed) (purgeExpired_subset now removed)

/-- An upload goes on; it is not the finished one, or it has all it had. -/
theorem Closed.assign (h : Closed serial chunks s) {upload' : Upload}
    (hupload : upload'.serial = serial → upload'.finished = true ∧ upload'.chunks = chunks)
    (disk : Disk) :
    Closed serial chunks { s with disk, uploads := KeyMap.assign id upload' s.uploads } where
  old := h.old
  chunks := by
    intro entry hentry hserial
    obtain rfl | hmem := KeyMap.mem_assign hentry
    · exact hupload hserial
    · exact h.chunks entry hmem hserial

theorem Closed.startSafe {safe : String} {size : Nat} {env : StartEnv}
    {result : Except KikoError String} (h : Closed serial chunks s)
    (hs : s.startSafe limits safe size env = some (s', result)) : Closed serial chunks s' := by
  have hpurged : Closed serial chunks (s.purgeExpired limits env.now env.removed) :=
    h.purgeExpired env.now env.removed
  unfold UploadStore.startSafe at hs
  dsimp only at hs
  generalize s.purgeExpired limits env.now env.removed = s at hs hpurged
  split at hs
  · cases hs
    exact hpurged
  split at hs
  · cases hs
    exact hpurged
  split at hs
  · cases hs
    exact hpurged
  split at hs
  · cases hs
  · cases hs
    exact hpurged
  split at hs
  · cases hs
    exact hpurged
  cases hs
  refine ⟨Nat.lt_succ_of_lt hpurged.old, ?_⟩
  intro entry hentry hserial
  obtain rfl | hmem := KeyMap.mem_assign hentry
  · exact absurd hserial hpurged.old.ne'
  · exact hpurged.chunks entry hmem hserial

theorem Closed.append {offset : Nat} {bytes : Bytes} {env : AppendEnv}
    {result : Except KikoError Unit} (h : Closed serial chunks s) (hmap : KeyMap.IsMap s.uploads)
    (hs : s.append id offset bytes env = some (s', result)) : Closed serial chunks s' := by
  obtain ⟨rfl, -⟩ | ⟨upload, hid, hunfinished, -, -, hs⟩ := append_cases hs
  · exact h
  unfold UploadStore.appendChunk at hs
  split at hs
  · split at hs
    · cases hs
    cases hs
    refine h.assign (fun hserial => ?_) _
    have hfinished := (h.chunks _ (hmap.lookup_eq_some.mp hid) hserial).1
    exact absurd (hunfinished.symm.trans hfinished) (by decide)
  · rename_i written rolledBack _
    dsimp only at hs
    by_cases hroom : s.disk.available < (bytes.take written).length
    · rw [if_pos hroom] at hs
      cases hs
    rw [if_neg hroom] at hs
    split at hs
    · cases hs
      exact h.subset rfl (List.Subset.refl _)
    · cases hs
      exact h.subset rfl (List.Subset.refl _)

/-- **A finished upload takes no chunk in any operation.** -/
theorem Closed.step (h : Closed serial chunks s) (hsound : Sound limits s)
    (hs : s.step limits op = some s') : Closed serial chunks s' := by
  have hmap := hsound.map
  cases op with
  -- a new upload has a number of its own
  | start filename size env =>
    obtain ⟨⟨s', result⟩, hstart, rfl⟩ := Option.map_eq_some_iff.mp hs
    unfold UploadStore.start at hstart
    split at hstart
    · cases hstart
      exact h
    · exact h.startSafe hstart
  -- a finished upload takes no chunk
  | append id offset bytes env =>
    obtain ⟨⟨s', result⟩, happend, rfl⟩ := Option.map_eq_some_iff.mp hs
    exact h.append hmap happend
  | finish id now =>
    cases hs
    unfold UploadStore.finish
    split
    · exact h
    rename_i upload hid
    split
    · exact h
    refine h.assign (fun hserial => ⟨rfl, ?_⟩) _
    exact (h.chunks _ (hmap.lookup_eq_some.mp hid) hserial).2
  | completedPath id now now' removed =>
    cases hs
    have hpurged : Closed serial chunks (s.purgeExpired limits now removed) :=
      h.purgeExpired now removed
    unfold UploadStore.completedPath
    dsimp only
    split
    · exact hpurged
    rename_i upload hid
    split
    · exact hpurged
    refine hpurged.assign (fun hserial => ?_) _
    have hmem := (hsound.purgeExpired now removed).map.lookup_eq_some.mp hid
    exact hpurged.chunks _ hmem hserial
  | release id =>
    cases hs
    exact h.subset rfl List.filter_sublist.subset
  | cancel id removed =>
    cases hs
    unfold UploadStore.cancel
    split
    · exact h
    · exact h.subset rfl List.filter_sublist.subset
  | purgeExpired now removed =>
    cases hs
    exact h.purgeExpired now removed

theorem closed_finish (h : Sound limits s) (hid : s.uploads.lookup id = some upload) {now : Int}
    {done : CompletedWebUpload} (hdone : (s.finish id now).2 = .ok done) :
    Closed upload.serial upload.chunks (s.finish id now).1 := by
  have hmem := h.map.lookup_eq_some.mp hid
  have hcomplete := (finish_ok_iff hid now).mp ⟨done, hdone⟩
  unfold UploadStore.finish
  rw [hid]
  dsimp only
  rw [if_neg (not_not.mpr hcomplete)]
  refine ⟨(h.staged _ hmem).serial, ?_⟩
  intro entry hentry hserial
  obtain rfl | he := List.mem_cons.mp ((h.map.assign_perm id _).mem_iff.mp hentry)
  · exact ⟨rfl, rfl⟩
  · obtain ⟨hmem', hne⟩ := List.mem_filter.mp he
    exact absurd (h.serials entry hmem' _ hmem hserial) (by simpa using hne)

/-- An accepted chunk is the next of its upload. -/
theorem append_ok {offset : Nat} {bytes : Bytes} {env : AppendEnv}
    (hs : s.append id offset bytes env = some (s', .ok ())) :
    ∃ upload upload', s.uploads.lookup id = some upload ∧ s'.uploads.lookup id = some upload' ∧
      offset = upload.received ∧ upload'.chunks = upload.chunks ++ [bytes] := by
  obtain ⟨-, error, herror⟩ | ⟨upload, hid, -, hoffset, -, hs⟩ := append_cases hs
  · cases herror
  unfold UploadStore.appendChunk at hs
  split at hs
  · split at hs
    · cases hs
    cases hs
    exact ⟨upload, _, hid, KeyMap.lookup_assign_self .., hoffset, rfl⟩
  · rename_i written rolledBack _
    dsimp only at hs
    by_cases hroom : s.disk.available < (bytes.take written).length
    · rw [if_pos hroom] at hs
      cases hs
    rw [if_neg hroom] at hs
    split at hs
    · cases hs
    · cases hs

/-- **The upload store**, in every run in which a failed write can be rolled back: each live
upload's file is its accepted chunks one after the other, and the count of what has been received
is its length and at most what was declared; no more uploads are live than allowed; what is still
promised to them is free above the reserve; an append that is refused or fails changes nothing,
and one that is accepted adds its chunk; `finish` succeeds exactly on what is complete; and after
it no chunk is accepted. -/
theorem upload_store_sound {available : Nat}
    (h : Lts.ReachUnder (UploadStore.step limits) (fun _ op => op.RollsBack)
      { disk := { available } } s) :
    (∀ id upload, s.uploads.lookup id = some upload →
      s.disk.files upload.path = some upload.chunks.flatten ∧
        upload.received = upload.chunks.flatten.length ∧ upload.received ≤ upload.expected) ∧
    s.uploads.length ≤ limits.maxActiveUploads ∧
    promised s.uploads ≤ s.disk.available - limits.freeSpaceReserveBytes ∧
    (∀ id offset bytes env s' error, env.write.RollsBack →
      s.append id offset bytes env = some (s', .error error) → s' = s) ∧
    (∀ id offset bytes env s', s.append id offset bytes env = some (s', .ok ()) →
      ∃ upload upload', s.uploads.lookup id = some upload ∧ s'.uploads.lookup id = some upload' ∧
        offset = upload.received ∧ upload'.chunks = upload.chunks ++ [bytes]) ∧
    (∀ id upload now, s.uploads.lookup id = some upload →
      ((∃ done, (s.finish id now).2 = .ok done) ↔ upload.received = upload.expected)) ∧
    ∀ id upload now done, s.uploads.lookup id = some upload → (s.finish id now).2 = .ok done →
      ∀ s', Lts.ReachUnder (UploadStore.step limits) (fun _ op => op.RollsBack)
          (s.finish id now).1 s' →
        ∀ id' upload', s'.uploads.lookup id' = some upload' → upload'.serial = upload.serial →
          upload'.chunks = upload.chunks := by
  have hsound : Sound limits s := h.invariant (.init available) fun hi hrolls hs => hi.step hrolls hs
  refine ⟨?_, hsound.count, hsound.space, ?_, ?_, ?_, ?_⟩
  · intro id upload hid
    have hstaged := hsound.staged _ (hsound.map.lookup_eq_some.mp hid)
    exact ⟨hstaged.file, hstaged.received, hstaged.fits⟩
  · intro id offset bytes env s' error hrolls hs
    exact (hsound.append hrolls hs).2 error rfl
  · intro id offset bytes env s' hs
    exact append_ok hs
  · intro id upload now hid
    exact finish_ok_iff hid now
  · intro id upload now done hid hdone s' hr id' upload' hid' hserial
    have hboth : Sound limits s' ∧ Closed upload.serial upload.chunks s' := by
      refine hr.invariant (I := fun s => Sound limits s ∧ Closed upload.serial upload.chunks s)
        ⟨hsound.finish id now, closed_finish hsound hid hdone⟩ ?_
      intro s s' op hi hrolls hs
      exact ⟨hi.1.step hrolls hs, hi.2.step hi.1 hs⟩
    exact (hboth.2.chunks _ (hboth.1.map.lookup_eq_some.mp hid') hserial).2

/-- A file of two bytes arrives in two chunks, the first after a write that failed half way. -/
theorem upload_store_sound_two_chunks :
    ∃ s : UploadStore, (s.uploads.lookup "00").map (·.chunks) = some [[1], [2]] ∧
      promised s.uploads ≤ s.disk.available - (WebUploadLimits.freeSpaceReserveBytes {}) := by
  have hrun : ∃ s : UploadStore,
      Lts.ReachUnder (UploadStore.step {}) (fun _ op => op.RollsBack)
        { disk := { available := 2 ^ 27 } } s ∧
      (s.uploads.lookup "00").map (·.chunks) = some [[1], [2]] :=
    ⟨_, .of_run [.start "a.txt" 2 { now := 0, ids := ["00"], startedAt := 1 },
      .append "00" 0 [1, 2] { write := .failed 1 true, now := 2 },
      .append "00" 0 [1] { now := 3 }, .append "00" 1 [2] { now := 4 }] rfl (by decide), rfl⟩
  obtain ⟨s, hr, hchunks⟩ := hrun
  exact ⟨s, hchunks, (upload_store_sound hr).2.2.1⟩

end Web
end Kiko
