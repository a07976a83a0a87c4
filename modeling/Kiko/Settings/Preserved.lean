import Kiko.Lib.Transition
import Kiko.Settings.Profile
import Kiko.Settings.UserConfig

/-!
# Settings are not lost

The configuration, that of the earlier version and the profile over any calls that load, save and
remember settings, whichever of their system calls fail. A call's every change of the disk is a
`SettingsStep`, and what no such step does to a file no run does:

* what a file's loader rejects stays at its path or at a backup, and a backup stays;
* a file that this process may not open, or that is no regular file, stays;
* what is at a path was there at first or is the whole text of a save.

A call that reports an error leaves what was at the path there or at a backup. That a file which
one call could not read is not replaced by the same call takes a condition (`SettingsOp.Reads`):
`rememberSettings` saves over a file that its load could not read, when it can be read again by
then, and reading that breaks off makes a file count as malformed.

What a user loses is a content that was at a path and is nowhere any more. So the relation is
between two disks, an earlier one and a later one, and it is transitive; that it holds for every
change a call makes is all there is to show for a run of calls. It says nothing of what the calls
return, which is why they may fail at any point.
-/

set_option autoImplicit false

namespace Kiko
namespace Settings

open Json
open History (Moves)

/-- The three paths. -/
structure Places where
  config : String
  legacy : String
  profile : String

/-! ## What a step of a call does to the disk

The writes that are allowed are few: the text of a save over something that may be replaced, and
a move to a fresh backup. -/

variable {lib : FileLibrary} {p : Places} {d d' d'' : Disk} {w w' : World}

/-- There is no file at the path, or one that its loader takes. -/
def Replaceable {α : Type} (load : Bytes → Except String α) (node : Option Node) : Prop :=
  node = none ∨ ∃ bytes a, node = some (.regular bytes true) ∧ load bytes = .ok a

/-- The whole text of a save at its path, in place of what may be replaced. -/
inductive Writes (lib : FileLibrary) (p : Places) : String → Bytes → Option Node → Prop
  | config (config : UserConfig) {old : Option Node} (h : Replaceable (parseConfig lib) old) :
      Writes lib p p.config (configText lib config) old
  | profile (root : Fields) {old : Option Node} (h : Replaceable (parseProfile lib) old) :
      Writes lib p p.profile (profileText lib root) old

inductive SettingsStep (lib : FileLibrary) (p : Places) : Disk → Disk → Prop
  | draw (d : Disk) : SettingsStep lib p d d.draw
  | scratch (d : Disk) (of : String) (serial : Nat) (node : Option Node) :
      SettingsStep lib p d (d.set (.temporary of serial) node)
  | backup {d : Disk} {path : String} {serial : Nat} {bytes : Bytes}
      (file : d.nodes (.named path) = some (.regular bytes true))
      (free : d.nodes (.backup path "corrupt" serial) = none) (drawn : serial < d.serial) :
      SettingsStep lib p d (d.rename (.named path) (.backup path "corrupt" serial))
  | replace {d : Disk} {path : String} {serial : Nat} {text : Bytes}
      (whole : d.nodes (.temporary path serial) = some (.regular text true))
      (writes : Writes lib p path text (d.nodes (.named path))) :
      SettingsStep lib p d (d.rename (.temporary path serial) (.named path))

/-- The loader of the file at the path takes no such content. -/
def Rejects (lib : FileLibrary) (p : Places) (path : String) (bytes : Bytes) : Prop :=
  (path = p.config → ∀ config, parseConfig lib bytes ≠ .ok config) ∧
    (path = p.profile → ∀ root, parseProfile lib bytes ≠ .ok root)

/-- What one disk holds of another. -/
structure Preserves (lib : FileLibrary) (p : Places) (d d' : Disk) : Prop where
  backups : ∀ of tag serial node, d.nodes (.backup of tag serial) = some node →
    d'.nodes (.backup of tag serial) = some node
  malformed : ∀ path bytes, d.nodes (.named path) = some (.regular bytes true) →
    Rejects lib p path bytes →
    d'.nodes (.named path) = some (.regular bytes true) ∨
      ∃ serial, d'.nodes (.backup path "corrupt" serial) = some (.regular bytes true)
  unreadable : ∀ path node, d.nodes (.named path) = some node →
    (∀ bytes, node ≠ .regular bytes true) → d'.nodes (.named path) = some node

instance : IsPreorder Disk (Preserves lib p) where
  refl d := ⟨fun _ _ _ _ h => h, fun _ _ h _ => .inl h, fun _ _ h _ => h⟩
  trans d d' d'' h h' := by
    refine ⟨fun _ _ _ _ hb => h'.backups _ _ _ _ (h.backups _ _ _ _ hb), ?_,
      fun path node hnode hclosed => h'.unreadable path node (h.unreadable path node hnode hclosed) hclosed⟩
    intro path bytes hnode hrejects
    rcases h.malformed path bytes hnode hrejects with hnode' | ⟨serial, hbackup⟩
    · exact h'.malformed path bytes hnode' hrejects
    · exact .inr ⟨serial, h'.backups _ _ _ _ hbackup⟩

/-- A step keeps what has to be kept when the nodes it changes hold nothing of it. -/
theorem preserves_of_nodes
    (hbackup : ∀ of tag serial node, d.nodes (.backup of tag serial) = some node →
      d'.nodes (.backup of tag serial) = some node)
    (hnamed : ∀ path node, d.nodes (.named path) = some node →
      d'.nodes (.named path) = some node ∨
        ∃ bytes, node = .regular bytes true ∧
          (Rejects lib p path bytes →
            ∃ serial, d'.nodes (.backup path "corrupt" serial) = some (.regular bytes true))) :
    Preserves lib p d d' := by
  refine ⟨hbackup, ?_, ?_⟩
  · intro path bytes hnode hrejects
    rcases hnamed path _ hnode with h | ⟨bytes', heq, h⟩
    · exact .inl h
    · cases heq
      exact .inr (h hrejects)
  · intro path node hnode hclosed
    rcases hnamed path _ hnode with h | ⟨bytes, heq, -⟩
    · exact h
    · exact absurd heq (hclosed bytes)

/-- What a save replaces is a file that its loader takes. -/
theorem Writes.replaced {path : String} {text : Bytes} {node : Node}
    (h : Writes lib p path text (some node)) :
    ∃ bytes, node = .regular bytes true ∧ ¬ Rejects lib p path bytes := by
  cases h with
  | config _ h =>
    rcases h with hnone | ⟨bytes, config, hnode, hload⟩
    · cases hnone
    · exact ⟨bytes, Option.some.inj hnode, fun hrejects => hrejects.1 rfl config hload⟩
  | profile _ h =>
    rcases h with hnone | ⟨bytes, root, hnode, hload⟩
    · cases hnone
    · exact ⟨bytes, Option.some.inj hnode, fun hrejects => hrejects.2 rfl root hload⟩

theorem SettingsStep.preserves (h : SettingsStep lib p d d') : Preserves lib p d d' := by
  cases h with
  | draw => exact preserves_of_nodes (fun _ _ _ _ h => h) fun _ _ h => .inl h
  | scratch of serial node =>
    apply preserves_of_nodes
    · intro of' tag serial' node' hnode
      rwa [Disk.set_of_ne (by simp)]
    · intro path node' hnode
      left
      rwa [Disk.set_of_ne (by simp)]
  | @backup path serial bytes file free drawn =>
    apply preserves_of_nodes
    · intro of tag serial' node hnode
      -- the name of the new backup is no name of an old one
      have hne : Path.backup of tag serial' ≠ .backup path "corrupt" serial := by
        intro heq
        rw [heq, free] at hnode
        cases hnode
      rwa [Disk.rename_of_ne (by simp) hne]
    · intro path' node hnode
      by_cases hpath : path' = path
      · subst hpath
        right
        rw [file] at hnode
        refine ⟨bytes, (Option.some.inj hnode).symm, fun _ => ⟨serial, ?_⟩⟩
        rw [Disk.rename_destination (by simp), file]
      · left
        rwa [Disk.rename_of_ne (by simpa using hpath) (by simp)]
  | @replace path serial text whole writes =>
    apply preserves_of_nodes
    · intro of tag serial' node hnode
      rwa [Disk.rename_of_ne (by simp) (by simp)]
    · intro path' node hnode
      by_cases hpath : path' = path
      · subst hpath
        right
        rw [hnode] at writes
        obtain ⟨bytes, heq, hloads⟩ := writes.replaced
        exact ⟨bytes, heq, fun hrejects => absurd hrejects hloads⟩
      · left
        rwa [Disk.rename_of_ne (by simp) (by simpa using hpath)]

/-- A backup gets a name that is new. -/
theorem SettingsStep.fresh (h : SettingsStep lib p d d') (hfresh : d.Fresh) : d'.Fresh := by
  intro of tag n hn
  cases h with
  | draw => exact hfresh of tag n (Nat.le_of_succ_le hn)
  | scratch of' serial node =>
    rw [Disk.set_of_ne (by simp)]
    exact hfresh of tag n hn
  | @backup path serial bytes file free drawn =>
    have hne : Path.backup of tag n ≠ .backup path "corrupt" serial := by
      intro heq
      obtain ⟨-, -, rfl⟩ : of = path ∧ tag = "corrupt" ∧ n = serial := by simpa using heq
      exact absurd hn (not_le.mpr drawn)
    rw [Disk.rename_of_ne (by simp) hne]
    exact hfresh of tag n hn
  | replace whole writes =>
    rw [Disk.rename_of_ne (by simp) (by simp)]
    exact hfresh of tag n hn

/-! ## What a call does

From the specification of the file operations to the steps: each change of a call is one of the
allowed ones, with the reason why the file could be replaced. -/

/-- What was at a path is there or at a backup. -/
def Keeps (d d' : Disk) : Prop :=
  ∀ path node, d.nodes (.named path) = some node →
    d'.nodes (.named path) = some node ∨
      ∃ serial, d'.nodes (.backup path "corrupt" serial) = some node

theorem Keeps.of_same (h : d.Same d') : Keeps d d' :=
  fun path _ hnode => .inl (h.named path ▸ hnode)

theorem Keeps.trans (h : Keeps d d') (h' : Keeps d' d'') (hp : Preserves lib p d' d'') :
    Keeps d d'' := by
  intro path node hnode
  rcases h path node hnode with hnode | ⟨serial, hbackup⟩
  · exact h' path node hnode
  · exact .inr ⟨serial, hp.backups _ _ _ _ hbackup⟩

theorem moves_fresh (h : Moves (SettingsStep lib p) w w') (hfresh : w.now.Fresh) : w'.now.Fresh :=
  h.invariant hfresh fun hd hs => hs.fresh hd

theorem moves_preserves (h : Moves (SettingsStep lib p) w w') : Preserves lib p w.now w'.now :=
  (h.mono fun hs => hs.preserves).related

/-- A whole write takes such steps, when its text may be at its path. -/
theorem atomicWriteTextFile_moves {f : WriteFaults} {path : String} {text : Bytes}
    {error : Option String} (hwrites : Writes lib p path text (w.now.nodes (.named path)))
    (h : atomicWriteTextFile f path text w = (error, w')) : Moves (SettingsStep lib p) w w' := by
  refine (atomicWriteTextFile_spec h).1.mono ?_
  intro s s' hs
  cases hs with
  | draw => exact .draw _
  | scratch => exact .scratch _ _ _ _
  | replace same whole => exact .replace whole (same.named path ▸ hwrites)

/-- Where it reports an error, or there was no file, nothing is lost by it. -/
theorem atomicWriteTextFile_keeps {f : WriteFaults} {path : String} {text : Bytes}
    {error : Option String} (h : atomicWriteTextFile f path text w = (error, w'))
    (hkeep : error ≠ none ∨ w.now.nodes (.named path) = none) : Keeps w.now w'.now := by
  have hspec := (atomicWriteTextFile_spec h).2
  cases error with
  | some error => exact .of_same (by simpa using hspec)
  | none =>
    have hnone := hkeep.resolve_left fun h => h rfl
    rw [if_pos rfl] at hspec
    intro path' node hnode
    have hne : path' ≠ path := by
      rintro rfl
      rw [hnone] at hnode
      cases hnode
    left
    rw [← hspec.named path', Disk.set_of_ne (by simpa using hne), hnode]

/-- Moving a file to a backup: it is there then, or nothing has changed. -/
theorem moveFileToRecoveryBackup_moves {fault : Option String} {path : String} {bytes : Bytes}
    {result : Except String Path} (hfresh : w.now.Fresh)
    (hfile : w.now.nodes (.named path) = some (.regular bytes true))
    (h : moveFileToRecoveryBackup fault path "corrupt" w = (result, w')) :
    Moves (SettingsStep lib p) w w' ∧ Keeps w.now w'.now ∧
      ((∃ backup, result = .ok backup ∧ w'.now.nodes (.named path) = none) ∨
        (∃ error, result = .error error) ∧ w'.now.nodes = w.now.nodes) := by
  rcases moveFileToRecoveryBackup_spec h with ⟨error, rfl, rfl | rfl⟩ | ⟨rfl, rfl⟩
  · exact ⟨.refl, .of_same (.refl _), .inr ⟨⟨error, rfl⟩, rfl⟩⟩
  · exact ⟨.single (.draw _), .of_same (.refl _), .inr ⟨⟨error, rfl⟩, rfl⟩⟩
  · have hfree : w.now.draw.nodes (.backup path "corrupt" w.now.serial) = none :=
      hfresh _ _ _ (le_refl _)
    refine ⟨(Moves.single (.draw _)).step (.backup hfile hfree (Nat.lt_succ_self _)), ?_,
      .inl ⟨_, rfl, Disk.set_self⟩⟩
    intro path' node hnode
    by_cases hpath : path' = path
    · subst hpath
      refine .inr ⟨w.now.serial, ?_⟩
      rw [History.become_now, Disk.rename_destination (by simp)]
      exact hnode
    · left
      rw [History.become_now, Disk.rename_of_ne (by simpa using hpath) (by simp)]
      exact hnode

/-! ### What the loaders have seen -/

section Loaders

variable {f : ReadFaults} {path : String}

theorem readConfigFile_missing (h : readConfigFile lib f path d = .missing) :
    d.nodes (.named path) = none := by
  have hreads := readFile_reads f path d
  unfold readConfigFile at h
  generalize readFile f path d = r at hreads h
  cases hreads with
  | missing _ node => exact node
  | content => simp only at h; split at h <;> cases h
  | _ => cases h

theorem readConfigFile_loaded {config : UserConfig} (h : readConfigFile lib f path d = .loaded config) :
    Replaceable (parseConfig lib) (d.nodes (.named path)) := by
  have hreads := readFile_reads f path d
  unfold readConfigFile at h
  generalize readFile f path d = r at hreads h
  cases hreads with
  | @content bytes _ node =>
    cases hparse : parseConfig lib bytes with
    | error e => simp [hparse] at h
    | ok c => exact .inr ⟨bytes, c, node, hparse⟩
  | _ => cases h

theorem readConfigFile_invalid {error : String} (h : readConfigFile lib f path d = .invalid error) :
    ∃ bytes, d.nodes (.named path) = some (.regular bytes true) := by
  have hreads := readFile_reads f path d
  unfold readConfigFile at h
  generalize readFile f path d = r at hreads h
  cases hreads with
  | broken _ node => exact ⟨_, node⟩
  | content _ node => exact ⟨_, node⟩
  | _ => cases h

theorem loadProfileRoot_missing (h : loadProfileRoot lib f path d = .missing) :
    d.nodes (.named path) = none := by
  have hreads := readFile_reads f path d
  unfold loadProfileRoot at h
  generalize readFile f path d = r at hreads h
  cases hreads with
  | missing _ node => exact node
  | content => simp only at h; split at h <;> cases h
  | _ => cases h

theorem loadProfileRoot_loaded {root : Fields} (h : loadProfileRoot lib f path d = .loaded root) :
    Replaceable (parseProfile lib) (d.nodes (.named path)) := by
  have hreads := readFile_reads f path d
  unfold loadProfileRoot at h
  generalize readFile f path d = r at hreads h
  cases hreads with
  | @content bytes _ node =>
    cases hparse : parseProfile lib bytes with
    | error e => simp [hparse] at h
    | ok c => exact .inr ⟨bytes, c, node, hparse⟩
  | _ => cases h

theorem loadProfileRoot_invalid {error : String} (h : loadProfileRoot lib f path d = .invalid error) :
    ∃ bytes, d.nodes (.named path) = some (.regular bytes true) := by
  have hreads := readFile_reads f path d
  unfold loadProfileRoot at h
  generalize readFile f path d = r at hreads h
  cases hreads with
  | broken _ node => exact ⟨_, node⟩
  | content _ node => exact ⟨_, node⟩
  | _ => cases h

end Loaders

/-! ### Loading -/

/-- The earlier version's configuration is taken over where there is no file. -/
theorem migrateLegacy_spec {f : LoadFaults} {canMigrate : Bool} {warning : Option String}
    {result : UserConfigLoadResult}
    (hnone : canMigrate = true → w.now.nodes (.named p.config) = none)
    (h : migrateLegacy lib f p.config p.legacy canMigrate warning w = (result, w')) :
    Moves (SettingsStep lib p) w w' ∧ Keeps w.now w'.now ∧ (canMigrate = false → w' = w) := by
  have hstay : w' = w → Moves (SettingsStep lib p) w w' ∧ Keeps w.now w'.now ∧
      (canMigrate = false → w' = w) := by
    rintro rfl
    exact ⟨.refl, .of_same (.refl _), fun _ => rfl⟩
  unfold migrateLegacy at h
  split at h
  · exact hstay (Prod.mk.inj h).2.symm
  cases hread : readConfigFile lib f.legacy p.legacy w.now with
  | loaded config =>
    rw [hread] at h
    cases canMigrate with
    | false => exact hstay (Prod.mk.inj h).2.symm
    | true =>
      have habsent := hnone rfl
      simp only [if_true] at h
      cases hwrite : writeConfigFile lib f.write p.config config w with
      | mk error w₁ =>
        rw [hwrite] at h
        have hw : w' = w₁ := by
          cases error with
          | some error => exact (Prod.mk.inj h).2.symm
          | none => exact (Prod.mk.inj h).2.symm
        rw [hw]
        exact ⟨atomicWriteTextFile_moves (.config config (.inl habsent)) hwrite,
          atomicWriteTextFile_keeps hwrite (.inr habsent), fun h => nomatch h⟩
  | missing => exact hstay (by rw [hread] at h; exact (Prod.mk.inj h).2.symm)
  | invalid error => exact hstay (by rw [hread] at h; exact (Prod.mk.inj h).2.symm)
  | unreadable error => exact hstay (by rw [hread] at h; exact (Prod.mk.inj h).2.symm)

/-- A load keeps what was at every path, there or at a backup. -/
theorem loadUserConfigWithStatus_spec {f : LoadFaults} {result : UserConfigLoadResult}
    (hfresh : w.now.Fresh)
    (h : loadUserConfigWithStatus lib f p.config p.legacy w = (result, w')) :
    Moves (SettingsStep lib p) w w' ∧ Keeps w.now w'.now := by
  unfold loadUserConfigWithStatus at h
  cases hread : readConfigFile lib f.current p.config w.now with
  | loaded config =>
    rw [hread] at h
    obtain ⟨-, rfl⟩ := Prod.mk.inj h
    exact ⟨.refl, .of_same (.refl _)⟩
  | missing =>
    rw [hread] at h
    obtain ⟨hmoves, hkeeps, -⟩ := migrateLegacy_spec (fun _ => readConfigFile_missing hread) h
    exact ⟨hmoves, hkeeps⟩
  | unreadable error =>
    simp only [hread] at h
    obtain ⟨hmoves, hkeeps, -⟩ := migrateLegacy_spec (fun h : false = true => nomatch h) h
    exact ⟨hmoves, hkeeps⟩
  | invalid error =>
    rw [hread] at h
    obtain ⟨bytes, hfile⟩ := readConfigFile_invalid hread
    cases hmove : moveFileToRecoveryBackup f.backup p.config "corrupt" w with
    | mk moved w₁ =>
      simp only [hmove] at h
      obtain ⟨hmoves₁, hkeeps₁, hresult⟩ := moveFileToRecoveryBackup_moves hfresh hfile hmove
      rcases hresult with ⟨backup, rfl, hgone⟩ | ⟨⟨error, rfl⟩, -⟩
      · obtain ⟨hmoves, hkeeps, -⟩ := migrateLegacy_spec (fun _ => hgone) h
        exact ⟨hmoves₁.trans hmoves, hkeeps₁.trans hkeeps (moves_preserves hmoves)⟩
      · obtain ⟨hmoves, hkeeps, -⟩ := migrateLegacy_spec (fun h : false = true => nomatch h) h
        exact ⟨hmoves₁.trans hmoves, hkeeps₁.trans hkeeps (moves_preserves hmoves)⟩

/-! ### Saving -/

theorem storeConfig_spec {f : WriteFaults} {config : UserConfig} {error : Option String}
    (hold : Replaceable (parseConfig lib) (w.now.nodes (.named p.config)))
    (h : storeConfig lib f p.config config w = (error, w')) :
    Moves (SettingsStep lib p) w w' ∧ (error ≠ none → Keeps w.now w'.now) := by
  unfold storeConfig at h
  cases hwrite : writeConfigFile lib f p.config config w with
  | mk e w₁ =>
    have hmoves : Moves (SettingsStep lib p) w w₁ :=
      atomicWriteTextFile_moves (.config config hold) hwrite
    rw [hwrite] at h
    cases e with
    | some e =>
      obtain ⟨-, rfl⟩ := Prod.mk.inj h
      exact ⟨hmoves, fun _ => atomicWriteTextFile_keeps hwrite (.inl nofun)⟩
    | none =>
      obtain ⟨rfl, rfl⟩ := Prod.mk.inj h
      exact ⟨hmoves, fun h => absurd rfl h⟩

theorem saveUserConfig_spec {f : SaveFaults} {config : UserConfig} {error : Option String}
    (hfresh : w.now.Fresh) (h : saveUserConfig lib f p.config config w = (error, w')) :
    Moves (SettingsStep lib p) w w' ∧ (error ≠ none → Keeps w.now w'.now) := by
  unfold saveUserConfig at h
  cases hread : readConfigFile lib f.read p.config w.now with
  | loaded old =>
    rw [hread] at h
    exact storeConfig_spec (readConfigFile_loaded hread) h
  | missing =>
    rw [hread] at h
    exact storeConfig_spec (.inl (readConfigFile_missing hread)) h
  | unreadable e =>
    rw [hread] at h
    obtain ⟨-, rfl⟩ := Prod.mk.inj h
    exact ⟨.refl, fun _ => .of_same (.refl _)⟩
  | invalid e =>
    obtain ⟨bytes, hfile⟩ := readConfigFile_invalid hread
    cases hmove : moveFileToRecoveryBackup f.backup p.config "corrupt" w with
    | mk moved w₁ =>
      simp only [hread, hmove] at h
      obtain ⟨hmoves₁, hkeeps₁, hresult⟩ := moveFileToRecoveryBackup_moves hfresh hfile hmove
      rcases hresult with ⟨backup, rfl, hgone⟩ | ⟨⟨e, rfl⟩, -⟩
      · obtain ⟨hmoves, hkeeps⟩ := storeConfig_spec (.inl hgone) h
        exact ⟨hmoves₁.trans hmoves,
          fun herror => hkeeps₁.trans (hkeeps herror) (moves_preserves hmoves)⟩
      · obtain ⟨-, rfl⟩ := Prod.mk.inj h
        exact ⟨hmoves₁, fun _ => hkeeps₁⟩

theorem storeEntry_spec {f : WriteFaults} {fingerprint : String} {success : ProfileSuccess}
    {root : Fields} {warning : Option String} {result : Except String (Option String)}
    (hold : Replaceable (parseProfile lib) (w.now.nodes (.named p.profile)))
    (h : storeEntry lib f p.profile fingerprint success root warning w = (result, w')) :
    Moves (SettingsStep lib p) w w' ∧ (∀ error, result = .error error → Keeps w.now w'.now) := by
  unfold storeEntry at h
  simp only at h
  cases hwrite : atomicWriteTextFile f p.profile (profileText lib (KeyMap.assign fingerprint
      (.object (recordSuccess success ((entryOf root fingerprint).getD []))) root)) w with
  | mk e w₁ =>
    have hmoves : Moves (SettingsStep lib p) w w₁ := atomicWriteTextFile_moves (.profile _ hold) hwrite
    rw [hwrite] at h
    cases e with
    | some e =>
      obtain ⟨-, rfl⟩ := Prod.mk.inj h
      exact ⟨hmoves, fun _ _ => atomicWriteTextFile_keeps hwrite (.inl nofun)⟩
    | none =>
      obtain ⟨rfl, rfl⟩ := Prod.mk.inj h
      exact ⟨hmoves, fun _ h => nomatch h⟩

theorem saveProfileSuccess_spec {f : SaveFaults} {fingerprint : String} {success : ProfileSuccess}
    {result : Except String (Option String)} (hfresh : w.now.Fresh)
    (h : saveProfileSuccess lib f p.profile fingerprint success w = (result, w')) :
    Moves (SettingsStep lib p) w w' ∧ (∀ error, result = .error error → Keeps w.now w'.now) := by
  unfold saveProfileSuccess at h
  cases hread : loadProfileRoot lib f.read p.profile w.now with
  | loaded root =>
    rw [hread] at h
    exact storeEntry_spec (loadProfileRoot_loaded hread) h
  | missing =>
    rw [hread] at h
    exact storeEntry_spec (.inl (loadProfileRoot_missing hread)) h
  | unreadable e =>
    rw [hread] at h
    obtain ⟨-, rfl⟩ := Prod.mk.inj h
    exact ⟨.refl, fun _ _ => .of_same (.refl _)⟩
  | invalid e =>
    obtain ⟨bytes, hfile⟩ := loadProfileRoot_invalid hread
    cases hmove : moveFileToRecoveryBackup f.backup p.profile "corrupt" w with
    | mk moved w₁ =>
      simp only [hread, hmove] at h
      obtain ⟨hmoves₁, hkeeps₁, hresult⟩ := moveFileToRecoveryBackup_moves hfresh hfile hmove
      rcases hresult with ⟨backup, rfl, hgone⟩ | ⟨⟨e, rfl⟩, -⟩
      · obtain ⟨hmoves, hkeeps⟩ := storeEntry_spec (.inl hgone) h
        exact ⟨hmoves₁.trans hmoves,
          fun e herror => hkeeps₁.trans (hkeeps e herror) (moves_preserves hmoves)⟩
      · obtain ⟨-, rfl⟩ := Prod.mk.inj h
        exact ⟨hmoves₁, fun _ _ => hkeeps₁⟩

theorem rememberSettings_spec {load : LoadFaults} {save : SaveFaults}
    {update : UserConfig → UserConfig} {result : Except String (Option String)}
    (hfresh : w.now.Fresh)
    (h : rememberSettings lib load save p.config p.legacy update w = (result, w')) :
    Moves (SettingsStep lib p) w w' ∧ (∀ error, result = .error error → Keeps w.now w'.now) := by
  unfold rememberSettings at h
  cases hload : loadUserConfigWithStatus lib load p.config p.legacy w with
  | mk loaded w₁ =>
    obtain ⟨hmoves₁, hkeeps₁⟩ := loadUserConfigWithStatus_spec hfresh hload
    cases hsave : saveUserConfig lib save p.config (update loaded.config) w₁ with
    | mk e w₂ =>
      obtain ⟨hmoves₂, hkeeps₂⟩ := saveUserConfig_spec (moves_fresh hmoves₁ hfresh) hsave
      simp only [hload, hsave] at h
      cases e with
      | some e =>
        obtain ⟨-, rfl⟩ := Prod.mk.inj h
        exact ⟨hmoves₁.trans hmoves₂,
          fun _ _ => hkeeps₁.trans (hkeeps₂ nofun) (moves_preserves hmoves₂)⟩
      | none =>
        obtain ⟨rfl, rfl⟩ := Prod.mk.inj h
        exact ⟨hmoves₁.trans hmoves₂, fun _ h => nomatch h⟩

/-! ## A file that a call could not read

The loader that could not read it says so, and the caller is to leave it alone. One caller reads
it again. -/

/-- There is a file, and it is not read to its end. -/
def Unread (f : ReadFaults) (path : String) (d : Disk) : Prop :=
  d.nodes (.named path) ≠ none ∧ ∀ bytes, readFile f path d ≠ .content bytes

/-- The file is opened, and reading it breaks off. -/
def ReadFaults.BreaksOff (f : ReadFaults) : Prop :=
  f.stat = none ∧ f.opening = false ∧ f.reading ≠ none

/-- The file is not looked at or not opened. -/
def ReadFaults.Refused (f : ReadFaults) : Prop := f.stat ≠ none ∨ f.opening = true

section Unread

variable {f : ReadFaults} {path : String}

theorem readConfigFile_unread (h : Unread f path d) :
    (∃ error, readConfigFile lib f path d = .unreadable error) ∨
      f.BreaksOff ∧ ∃ error, readConfigFile lib f path d = .invalid error := by
  obtain ⟨hnode, hcontent⟩ := h
  have hreads := readFile_reads f path d
  unfold readConfigFile
  generalize readFile f path d = r at hreads hcontent
  cases hreads with
  | stat | other | shut => exact .inl ⟨_, rfl⟩
  | missing _ node => exact absurd node hnode
  | broken stat _ opening reading => exact .inr ⟨⟨stat, opening, by simp [reading]⟩, _, rfl⟩
  | content => exact absurd rfl (hcontent _)

theorem loadProfileRoot_unread (h : Unread f path d) :
    (∃ error, loadProfileRoot lib f path d = .unreadable error) ∨
      f.BreaksOff ∧ ∃ error, loadProfileRoot lib f path d = .invalid error := by
  obtain ⟨hnode, hcontent⟩ := h
  have hreads := readFile_reads f path d
  unfold loadProfileRoot
  generalize readFile f path d = r at hreads hcontent
  cases hreads with
  | stat | other | shut => exact .inl ⟨_, rfl⟩
  | missing _ node => exact absurd node hnode
  | broken stat _ opening reading => exact .inr ⟨⟨stat, opening, by simp [reading]⟩, _, rfl⟩
  | content => exact absurd rfl (hcontent _)

theorem unread_of_refused (hnode : d.nodes (.named path) ≠ none) (h : f.Refused) :
    Unread f path d ∧ ¬ f.BreaksOff := by
  have hbreaks : ¬ f.BreaksOff := by
    rintro ⟨hstat, hopening, -⟩
    rcases h with h | h
    · exact h hstat
    · rw [hopening] at h
      cases h
  refine ⟨⟨hnode, fun bytes hread => ?_⟩, hbreaks⟩
  have hreads := readFile_reads f path d
  rw [hread] at hreads
  cases hreads with
  | content stat _ opening =>
    rcases h with h | h
    · exact h stat
    · rw [opening] at h
      cases h

theorem moveFileToRecoveryBackup_fault {fault : Option String} {tag : String}
    {result : Except String Path} (hfault : fault ≠ none)
    (h : moveFileToRecoveryBackup fault path tag w = (result, w')) :
    (∃ error, result = .error error) ∧ w'.now.nodes = w.now.nodes := by
  rcases moveFileToRecoveryBackup_spec h with ⟨error, rfl, rfl | rfl⟩ | ⟨rfl, -⟩
  · exact ⟨⟨error, rfl⟩, rfl⟩
  · exact ⟨⟨error, rfl⟩, rfl⟩
  · obtain ⟨e, he⟩ := Option.ne_none_iff_exists'.mp hfault
    unfold moveFileToRecoveryBackup at h
    split at h
    · cases h
    · rw [he] at h
      cases h

end Unread

theorem loadUserConfigWithStatus_unread {f : LoadFaults} {result : UserConfigLoadResult}
    (h : loadUserConfigWithStatus lib f p.config p.legacy w = (result, w'))
    (hunread : Unread f.current p.config w.now)
    (hbreaks : f.current.BreaksOff → f.backup ≠ none) : w'.now.nodes = w.now.nodes := by
  unfold loadUserConfigWithStatus at h
  rcases @readConfigFile_unread lib _ _ _ hunread with ⟨error, hread⟩ | ⟨hoff, error, hread⟩
  · simp only [hread] at h
    rw [(migrateLegacy_spec (fun h : false = true => nomatch h) h).2.2 rfl]
  · cases hmove : moveFileToRecoveryBackup f.backup p.config "corrupt" w with
    | mk moved w₁ =>
      obtain ⟨⟨error, rfl⟩, hsame⟩ := moveFileToRecoveryBackup_fault (hbreaks hoff) hmove
      simp only [hread, hmove] at h
      rw [(migrateLegacy_spec (fun h : false = true => nomatch h) h).2.2 rfl, hsame]

theorem saveUserConfig_unread {f : SaveFaults} {config : UserConfig} {error : Option String}
    (h : saveUserConfig lib f p.config config w = (error, w'))
    (hunread : Unread f.read p.config w.now)
    (hbreaks : f.read.BreaksOff → f.backup ≠ none) : w'.now.nodes = w.now.nodes := by
  unfold saveUserConfig at h
  rcases @readConfigFile_unread lib _ _ _ hunread with ⟨e, hread⟩ | ⟨hoff, e, hread⟩
  · rw [hread] at h
    rw [(Prod.mk.inj h).2]
  · cases hmove : moveFileToRecoveryBackup f.backup p.config "corrupt" w with
    | mk moved w₁ =>
      obtain ⟨⟨e, rfl⟩, hsame⟩ := moveFileToRecoveryBackup_fault (hbreaks hoff) hmove
      simp only [hread, hmove] at h
      rw [← (Prod.mk.inj h).2, hsame]

theorem saveProfileSuccess_unread {f : SaveFaults} {fingerprint : String} {success : ProfileSuccess}
    {result : Except String (Option String)}
    (h : saveProfileSuccess lib f p.profile fingerprint success w = (result, w'))
    (hunread : Unread f.read p.profile w.now)
    (hbreaks : f.read.BreaksOff → f.backup ≠ none) : w'.now.nodes = w.now.nodes := by
  unfold saveProfileSuccess at h
  rcases @loadProfileRoot_unread lib _ _ _ hunread with ⟨e, hread⟩ | ⟨hoff, e, hread⟩
  · rw [hread] at h
    rw [(Prod.mk.inj h).2]
  · cases hmove : moveFileToRecoveryBackup f.backup p.profile "corrupt" w with
    | mk moved w₁ =>
      obtain ⟨⟨e, rfl⟩, hsame⟩ := moveFileToRecoveryBackup_fault (hbreaks hoff) hmove
      simp only [hread, hmove] at h
      rw [← (Prod.mk.inj h).2, hsame]

theorem rememberSettings_snd {load : LoadFaults} {save : SaveFaults}
    {update : UserConfig → UserConfig} {path legacy : String} {loaded : UserConfigLoadResult}
    {error : Option String} {w₁ : World}
    (hload : loadUserConfigWithStatus lib load path legacy w = (loaded, w₁))
    (hsave : saveUserConfig lib save path (update loaded.config) w₁ = (error, w')) :
    (rememberSettings lib load save path legacy update w).2 = w' := by
  simp only [rememberSettings, hload, hsave]
  cases error <;> rfl

/-- The world a `rememberSettings` ends in is that of its save, begun in that of its load. -/
theorem rememberSettings_world {load : LoadFaults} {save : SaveFaults}
    {update : UserConfig → UserConfig} {result : Except String (Option String)}
    (h : rememberSettings lib load save p.config p.legacy update w = (result, w')) :
    ∃ config error, saveUserConfig lib save p.config config
      (loadUserConfigWithStatus lib load p.config p.legacy w).2 = (error, w') := by
  cases hload : loadUserConfigWithStatus lib load p.config p.legacy w with
  | mk loaded w₁ =>
    cases hsave : saveUserConfig lib save p.config (update loaded.config) w₁ with
    | mk e w₂ =>
      have hw : w' = w₂ := by rw [← rememberSettings_snd hload hsave, h]
      exact ⟨update loaded.config, e, by rw [hsave, hw]⟩

/-- What the load could not read the save does not replace, if it cannot open it either. -/
theorem rememberSettings_unread {load : LoadFaults} {save : SaveFaults}
    {update : UserConfig → UserConfig} {result : Except String (Option String)}
    (h : rememberSettings lib load save p.config p.legacy update w = (result, w'))
    (hunread : Unread load.current p.config w.now)
    (hbreaks : load.current.BreaksOff → load.backup ≠ none) (hrefused : save.read.Refused) :
    w'.now.nodes = w.now.nodes := by
  obtain ⟨config, error, hsave⟩ := rememberSettings_world h
  cases hload : loadUserConfigWithStatus lib load p.config p.legacy w with
  | mk loaded w₁ =>
    have hsame := loadUserConfigWithStatus_unread hload hunread hbreaks
    rw [hload] at hsave
    have hnode : w₁.now.nodes (.named p.config) ≠ none := by
      rw [hsame]
      exact hunread.1
    obtain ⟨hunread', hoff⟩ := unread_of_refused hnode hrefused
    rw [saveUserConfig_unread hsave hunread' fun h => absurd h hoff, hsame]

/-! ## Any calls

The condition is on the faults of a call and not on what it does with them. -/

inductive SettingsOp
  | loadUserConfig (f : LoadFaults)
  | saveUserConfig (f : SaveFaults) (config : UserConfig)
  | rememberSendSettings (load : LoadFaults) (save : SaveFaults) (relay : String)
      (relayPass : Option String) (sendPath : String)
  | rememberRecvSettings (load : LoadFaults) (save : SaveFaults) (relay : String)
      (relayPass : Option String) (outputDir : String)
  | saveProfileSuccess (f : SaveFaults) (fingerprint : String) (success : ProfileSuccess)

namespace SettingsOp

/-- The error or the warning of a call, and the world after it. -/
def run (lib : FileLibrary) (p : Places) : SettingsOp → World → Except String (Option String) × World
  | loadUserConfig f, w =>
    match loadUserConfigWithStatus lib f p.config p.legacy w with
    | (loaded, w) => (.ok loaded.warning, w)
  | saveUserConfig f config, w =>
    match Settings.saveUserConfig lib f p.config config w with
    | (some error, w) => (.error error, w)
    | (none, w) => (.ok none, w)
  | rememberSendSettings load save relay relayPass sendPath, w =>
    Settings.rememberSendSettings lib load save p.config p.legacy relay relayPass sendPath w
  | rememberRecvSettings load save relay relayPass outputDir, w =>
    Settings.rememberRecvSettings lib load save p.config p.legacy relay relayPass outputDir w
  | saveProfileSuccess f fingerprint success, w =>
    Settings.saveProfileSuccess lib f p.profile fingerprint success w

def step (lib : FileLibrary) (p : Places) (w : World) (op : SettingsOp) : Option World :=
  some (op.run lib p w).2

/-- A call that may fail to write and report it as a warning. -/
def IsLoad : SettingsOp → Prop
  | loadUserConfig _ => True
  | _ => False

/-- The reads a call makes of the file that it may write: their faults, the path, and the disk. -/
def reads (lib : FileLibrary) (p : Places) (op : SettingsOp) (w : World) :
    List (ReadFaults × String × Disk) :=
  match op with
  | loadUserConfig f => [(f.current, p.config, w.now)]
  | saveUserConfig f _ => [(f.read, p.config, w.now)]
  | rememberSendSettings load save _ _ _ | rememberRecvSettings load save _ _ _ =>
    [(load.current, p.config, w.now),
      (save.read, p.config, (loadUserConfigWithStatus lib load p.config p.legacy w).2.now)]
  | saveProfileSuccess f _ _ => [(f.read, p.profile, w.now)]

/-- No read breaks off, unless the backup that would follow fails too; and a call that loads and
    saves cannot open the file to save when it could not read it to load. -/
def Reads (p : Places) (op : SettingsOp) (w : World) : Prop :=
  match op with
  | loadUserConfig f => f.current.BreaksOff → f.backup ≠ none
  | saveUserConfig f _ => f.read.BreaksOff → f.backup ≠ none
  | rememberSendSettings load save _ _ _ | rememberRecvSettings load save _ _ _ =>
    (load.current.BreaksOff → load.backup ≠ none) ∧ (save.read.BreaksOff → save.backup ≠ none) ∧
      (Unread load.current p.config w.now → save.read.Refused)
  | saveProfileSuccess f _ _ => f.read.BreaksOff → f.backup ≠ none

end SettingsOp

namespace SettingsOp

variable {op : SettingsOp}

theorem run_spec (hfresh : w.now.Fresh) :
    Moves (SettingsStep lib p) w (op.run lib p w).2 ∧
      ((∃ error, (op.run lib p w).1 = .error error) ∨ op.IsLoad → Keeps w.now (op.run lib p w).2.now) := by
  cases op with
  | loadUserConfig f =>
    obtain ⟨hmoves, hkeeps⟩ := loadUserConfigWithStatus_spec hfresh (rfl :
      loadUserConfigWithStatus lib f p.config p.legacy w = _)
    exact ⟨hmoves, fun _ => hkeeps⟩
  | saveUserConfig f config =>
    cases hsave : Settings.saveUserConfig lib f p.config config w with
    | mk e w₁ =>
      obtain ⟨hmoves, hkeeps⟩ := saveUserConfig_spec hfresh hsave
      cases e with
      | some e =>
        simp only [run, hsave]
        exact ⟨hmoves, fun _ => hkeeps nofun⟩
      | none =>
        simp only [run, hsave]
        refine ⟨hmoves, fun h => ?_⟩
        rcases h with ⟨e, he⟩ | h
        · cases he
        · exact h.elim
  | rememberSendSettings load save relay relayPass sendPath =>
    obtain ⟨hmoves, hkeeps⟩ := rememberSettings_spec hfresh (rfl :
      Settings.rememberSendSettings lib load save p.config p.legacy relay relayPass sendPath w = _)
    exact ⟨hmoves, fun h => h.elim (fun ⟨e, he⟩ => hkeeps e he) fun h => h.elim⟩
  | rememberRecvSettings load save relay relayPass outputDir =>
    obtain ⟨hmoves, hkeeps⟩ := rememberSettings_spec hfresh (rfl :
      Settings.rememberRecvSettings lib load save p.config p.legacy relay relayPass outputDir w = _)
    exact ⟨hmoves, fun h => h.elim (fun ⟨e, he⟩ => hkeeps e he) fun h => h.elim⟩
  | saveProfileSuccess f fingerprint success =>
    obtain ⟨hmoves, hkeeps⟩ := saveProfileSuccess_spec hfresh (rfl :
      Settings.saveProfileSuccess lib f p.profile fingerprint success w = _)
    exact ⟨hmoves, fun h => h.elim (fun ⟨e, he⟩ => hkeeps e he) fun h => h.elim⟩

/-- A file that a call could not read, at the time it read it, is there when the call is over. -/
theorem run_unread (hreads : op.Reads p w) : ∀ read ∈ op.reads lib p w,
    Unread read.1 read.2.1 read.2.2 →
      (op.run lib p w).2.now.nodes (.named read.2.1) = read.2.2.nodes (.named read.2.1) := by
  -- both ways to remember settings read the file twice
  have hremember : ∀ (load : LoadFaults) (save : SaveFaults) (update : UserConfig → UserConfig),
      (load.current.BreaksOff → load.backup ≠ none) → (save.read.BreaksOff → save.backup ≠ none) →
      (Unread load.current p.config w.now → save.read.Refused) →
      ∀ read ∈ [(load.current, p.config, w.now),
        (save.read, p.config, (loadUserConfigWithStatus lib load p.config p.legacy w).2.now)],
      Unread read.1 read.2.1 read.2.2 →
        (rememberSettings lib load save p.config p.legacy update w).2.now.nodes (.named read.2.1) =
          read.2.2.nodes (.named read.2.1) := by
    intro load save update hload hsave hagain read hmem hunread
    rcases List.mem_cons.mp hmem with rfl | hmem
    · exact congrFun (@rememberSettings_unread lib p w _ load save update _ rfl hunread hload
        (hagain hunread)) _
    · obtain rfl := List.mem_singleton.mp hmem
      obtain ⟨config, error, heq⟩ := @rememberSettings_world lib p w
        (rememberSettings lib load save p.config p.legacy update w).2 load save update
        (rememberSettings lib load save p.config p.legacy update w).1 rfl
      exact congrFun (saveUserConfig_unread heq hunread hsave) _
  intro read hmem hunread
  cases op with
  | loadUserConfig f =>
    obtain rfl := List.mem_singleton.mp hmem
    cases hload : loadUserConfigWithStatus lib f p.config p.legacy w with
    | mk loaded w₁ =>
      have hworld : (run lib p (.loadUserConfig f) w).2 = w₁ := by simp only [run, hload]
      rw [hworld, loadUserConfigWithStatus_unread hload hunread hreads]
  | saveUserConfig f config =>
    obtain rfl := List.mem_singleton.mp hmem
    cases hsave : Settings.saveUserConfig lib f p.config config w with
    | mk e w₁ =>
      have hworld : (run lib p (.saveUserConfig f config) w).2 = w₁ := by
        cases e <;> simp only [run, hsave]
      rw [hworld, saveUserConfig_unread hsave hunread hreads]
  | rememberSendSettings load save relay relayPass sendPath =>
    exact hremember load save
      (fun config =>
        { withRelay relay relayPass config with lastSendPath := sendPath, lastMode := 0 })
      hreads.1 hreads.2.1 hreads.2.2 read hmem hunread
  | rememberRecvSettings load save relay relayPass outputDir =>
    exact hremember load save
      (fun config =>
        { withRelay relay relayPass config with lastRecvOutDir := outputDir, lastMode := 1 })
      hreads.1 hreads.2.1 hreads.2.2 read hmem hunread
  | saveProfileSuccess f fingerprint success =>
    obtain rfl := List.mem_singleton.mp hmem
    cases hsave : Settings.saveProfileSuccess lib f p.profile fingerprint success w with
    | mk result w₁ =>
      have hworld : (run lib p (.saveProfileSuccess f fingerprint success) w).2 = w₁ := by
        simp only [run, hsave]
      rw [hworld, saveProfileSuccess_unread hsave hunread hreads]

end SettingsOp

/-- The whole text of a save. -/
inductive WholeText (lib : FileLibrary) : Bytes → Prop
  | config (config : UserConfig) : WholeText lib (configText lib config)
  | profile (root : Fields) : WholeText lib (profileText lib root)

/-- At every path is what was there at first or the whole text of a save. -/
def Whole (lib : FileLibrary) (files : String → Option Node) (d : Disk) : Prop :=
  ∀ path node, d.nodes (.named path) = some node →
    files path = some node ∨ ∃ text, node = .regular text true ∧ WholeText lib text

theorem SettingsStep.whole {files : String → Option Node} (h : SettingsStep lib p d d')
    (hwhole : Whole lib files d) : Whole lib files d' := by
  intro path node hnode
  cases h with
  | draw => exact hwhole path node hnode
  | scratch of serial n =>
    rw [Disk.set_of_ne (by simp)] at hnode
    exact hwhole path node hnode
  | @backup path' serial bytes file free drawn =>
    by_cases hpath : path = path'
    · rw [hpath, Disk.rename, Disk.set_self] at hnode
      cases hnode
    · rw [Disk.rename_of_ne (by simpa using hpath) (by simp)] at hnode
      exact hwhole path node hnode
  | @replace path' serial text whole writes =>
    by_cases hpath : path = path'
    · rw [hpath, Disk.rename_destination (by simp), whole] at hnode
      refine .inr ⟨text, (Option.some.inj hnode).symm, ?_⟩
      cases writes with
      | config config => exact .config config
      | profile root => exact .profile root
    · rw [Disk.rename_of_ne (by simp) (by simpa using hpath)] at hnode
      exact hwhole path node hnode

/-- What a run has done to the disk. -/
theorem settings_moves {w₀ : World} (hfresh : w₀.now.Fresh)
    (h : Lts.Reach (SettingsOp.step lib p) w₀ w) : Moves (SettingsStep lib p) w₀ w := by
  have hrun : Moves (SettingsStep lib p) w₀ w ∧ w.now.Fresh := by
    refine h.invariant (I := fun w => Moves (SettingsStep lib p) w₀ w ∧ w.now.Fresh)
      ⟨.refl, hfresh⟩ ?_
    intro w w' op hI _ hstep
    obtain rfl := Option.some.inj hstep
    have hmoves := (@SettingsOp.run_spec lib p w op hI.2).1
    exact ⟨hI.1.trans hmoves, moves_fresh hmoves hI.2⟩
  exact hrun.1

/-- **Settings are not lost.** In every run, from any files: between any two states what has to be
    kept is kept, and no file is seen in part. A call that reports an error, and every load, keeps
    what was at a path there or at a backup. And no call whose reads meet the condition replaces a
    file that it could not read. -/
theorem settings_preserved (lib : FileLibrary) (p : Places) (files : String → Option Node) {w : World}
    (h : Lts.Reach (SettingsOp.step lib p) ⟨Disk.start files, []⟩ w) :
    w.states.Pairwise (fun later earlier => Preserves lib p earlier later) ∧
      (∀ d ∈ w.states, Whole lib files d) ∧
      (∀ op : SettingsOp, (∃ error, (op.run lib p w).1 = .error error) ∨ op.IsLoad →
        Keeps w.now (op.run lib p w).2.now) ∧
      ∀ op : SettingsOp, op.Reads p w → ∀ read ∈ op.reads lib p w,
        Unread read.1 read.2.1 read.2.2 →
          (op.run lib p w).2.now.nodes (.named read.2.1) = read.2.2.nodes (.named read.2.1) := by
  have hfresh : (Disk.start files).Fresh := fun _ _ _ _ => rfl
  have hmoves := settings_moves hfresh h
  have hkeep : Moves (Preserves lib p) ⟨Disk.start files, []⟩ w := hmoves.mono fun hs => hs.preserves
  have hstart : ∀ d ∈ History.states ⟨Disk.start files, []⟩, Whole lib files d := by
    intro d hd path node hnode
    obtain rfl := List.mem_singleton.mp hd
    exact .inl hnode
  refine ⟨hkeep.ordered (List.pairwise_singleton _ _),
    hmoves.everywhere hstart fun hwhole hs => hs.whole hwhole, ?_, ?_⟩
  · intro op hreports
    exact (SettingsOp.run_spec (moves_fresh hmoves hfresh)).2 hreports
  · intro op hreads
    exact SettingsOp.run_unread hreads

/-! ### Two runs -/

def samplePlaces : Places := ⟨"config.json", "tui.json", "profile.json"⟩

/-- A configuration file of the given bytes, and nothing else. -/
def sampleFiles (bytes : Bytes) : String → Option Node :=
  fun name => if name = "config.json" then some (.regular bytes true) else none

/-- A file that holds no JSON is saved over. -/
theorem settings_preserved_sample :
    let files := sampleFiles [123]
    let w := ((SettingsOp.saveUserConfig {} {}).run compactFile samplePlaces ⟨Disk.start files, []⟩).2
    w.states.Pairwise (fun later earlier => Preserves compactFile samplePlaces earlier later) ∧
      (∀ d ∈ w.states, Whole compactFile files d) ∧
      (∀ op : SettingsOp, (∃ error, (op.run compactFile samplePlaces w).1 = .error error) ∨ op.IsLoad →
        Keeps w.now (op.run compactFile samplePlaces w).2.now) ∧
      ∀ op : SettingsOp, op.Reads samplePlaces w → ∀ read ∈ op.reads compactFile samplePlaces w,
        Unread read.1 read.2.1 read.2.2 →
          (op.run compactFile samplePlaces w).2.now.nodes (.named read.2.1) =
            read.2.2.nodes (.named read.2.1) :=
  settings_preserved compactFile samplePlaces (sampleFiles [123]) (.tail .refl trivial rfl)

/-- A configuration worth keeping. -/
def sampleConfig : UserConfig := { relay := "relay.example:9000", relayPass := "secret" }

/-- A send is remembered; the configuration could not be opened when it was loaded. -/
def sampleRemember : SettingsOp :=
  .rememberSendSettings { current := { opening := true } } {} "relay.example:9000" none "/tmp/a"

/-- What `sampleRemember` makes of the configuration it has loaded. -/
def sampleUpdate (config : UserConfig) : UserConfig :=
  { withRelay "relay.example:9000" none config with lastSendPath := "/tmp/a", lastMode := 0 }

theorem sampleRemember_run (w : World) : sampleRemember.run compactFile samplePlaces w =
    rememberSettings compactFile { current := { opening := true } } {} "config.json" "tui.json"
      sampleUpdate w := rfl

/-- The configuration that the call could not read is gone from its path, and from every backup. -/
theorem settings_lost :
    let w := (⟨Disk.start (sampleFiles (configText compactFile sampleConfig)), []⟩ : World)
    let w' := (sampleRemember.run compactFile samplePlaces w).2
    (∀ read ∈ (sampleRemember.reads compactFile samplePlaces w).head?, Unread read.1 read.2.1 read.2.2) ∧
      w.now.nodes (.named "config.json") = some (.regular (configText compactFile sampleConfig) true) ∧
      w'.now.nodes (.named "config.json") ≠ some (.regular (configText compactFile sampleConfig) true) ∧
      ∀ tag serial, w'.now.nodes (.backup "config.json" tag serial) = none := by
  intro w w'
  have hnode : w.now.nodes (.named "config.json") =
      some (.regular (configText compactFile sampleConfig) true) := rfl
  have hunread : ∀ read ∈ (sampleRemember.reads compactFile samplePlaces w).head?,
      Unread read.1 read.2.1 read.2.2 := by
    intro read hread
    cases hread
    exact ⟨nofun, nofun⟩
  have hload : loadUserConfigWithStatus compactFile { current := { opening := true } } "config.json"
      "tui.json" w =
        ({ warning := some "could not read user config config.json: could not open file" }, w) := rfl
  generalize hsaved : sampleUpdate {} = saved
  have hread : readConfigFile compactFile {} "config.json" w.now = .loaded sampleConfig := by
    simp [readConfigFile, readFile, hnode, parseConfig_configText]
  cases hwrite : atomicWriteTextFile {} "config.json" (configText compactFile saved) w with
  | mk error w₁ =>
    obtain rfl : error = none := by
      have hok : (atomicWriteTextFile {} "config.json" (configText compactFile saved) w).1 = none :=
        atomicWriteTextFile_succeeds (by decide) rfl _
      rw [hwrite] at hok
      exact hok
    have hsame := (atomicWriteTextFile_spec hwrite).2
    rw [if_pos rfl] at hsame
    have hsave : saveUserConfig compactFile {} "config.json" saved w = (none, w₁) := by
      simp only [saveUserConfig, hread, storeConfig, writeConfigFile, hwrite]
    have hw' : w' = w₁ := by
      rw [← hsaved] at hsave
      change (sampleRemember.run compactFile samplePlaces w).2 = w₁
      rw [sampleRemember_run]
      exact rememberSettings_snd hload hsave
    rw [hw']
    refine ⟨hunread, hnode, ?_, ?_⟩
    · rw [← hsame.named, Disk.set_self]
      intro heq
      -- texts of different configurations differ: each loads as its own
      have htext : configText compactFile saved = configText compactFile sampleConfig := by
        simpa using heq
      have hconfig := parseConfig_configText compactFile saved
      rw [htext, parseConfig_configText, ← hsaved] at hconfig
      exact absurd (Except.ok.inj hconfig) (by decide)
    · intro tag serial
      rw [← hsame (.backup "config.json" tag serial) id, Disk.set_of_ne (by simp)]
      rfl

end Settings
end Kiko
