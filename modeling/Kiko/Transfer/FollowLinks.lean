import Kiko.Lib.Transition
import Kiko.Transfer.WalkedPaths

/-!
# Links that are followed (`transfer/file_manifest`)

With links to directories followed, the walks from a source directory are those of a tree without
an end: a link to a directory above repeats everything below it. `Open` says which directories
are gone into, of each walk for itself: the place it leads to is none that the walk has come
through, and the ignore files on the walk do not exclude it. What has been seen on other walks
plays no part.

The loop knows only its depth and a list that it cuts to that length. `Inv` is what it keeps:
the list is the canonical places of the directories the iterator is in, the rules are those of
the ignore files on the walk and others that match nothing here, and what has been collected and
what is still to come are, together, all that `Collected` says.

The specification (`Open`, `Collected`) goes by walks and not by directories, because the code
does: a directory that two links lead to is collected twice, under two names, and only a
directory that the walk itself has come through is cut. What the loop has at hand is much less
than a walk. That its list of ancestors is the right one at the head of every round
(`Inv.trimmed`) is the heart of the module, and it is a statement about the cut by depth: what a
round has pushed beyond it is taken off before it is looked at.

The rules are harder than the list, because the code never drops any: those read in a directory
are kept for all that follows. They do no harm, since a rule matches only what is below the
directory it was read in, and what comes later is not (`Inv.ignored`).
-/

set_option autoImplicit false

namespace Kiko.Transfer.FollowLinks

open Lexical FileTree GitIgnore

/-! ## Which directories are gone into

All of it is defined on walks from the source, as an inductive predicate, with no order and no
state: the reference against which the loop is measured. The definitions ask the disk the same
questions as the code does (`canonical`, `isDirectory`, the ignore file), so an odd answer of the
disk is the same odd answer here. -/

section Open

variable (disk : SourceDisk) (options : CollectOptions) (root : FsPath)

/-- The canonical places of the directories a walk has come through, its end among them. -/
def directoriesOn (walk : List String) : List Place :=
  walk.inits.filterMap fun walk => disk.canonical (entryPath root walk)

/-- The rules of the ignore file in the directory that a walk leads to. -/
def ignoreRulesIn (walk : List String) : List Rule :=
  if options.useGitignore then addIgnoreFile disk [] (gitignoreIn (entryPath root walk)) else []

/-- The rules that hold in the directory a walk leads to: those the source is found with, and
    those of the ignore files on the walk. -/
def rulesOn (walk : List String) : List Rule :=
  (if options.useGitignore then loadGitignoreStack disk root else []) ++
    walk.inits.tail.flatMap (ignoreRulesIn disk options root)

/-- The walk leads to a directory that it has come through. -/
def Cut (walk : List String) : Prop :=
  ∃ place, disk.canonical (entryPath root walk) = some place ∧ isDir disk.tree place = true ∧
    place ∈ directoriesOn disk root walk.dropLast

/-- The ignore files on the walk exclude it. -/
def Excluded (walk : List String) : Prop :=
  options.useGitignore = true ∧
    ignored disk.cwd (rulesOn disk options root walk.dropLast) (entryPath root walk)
      (disk.isDirectory (entryPath root walk)) = true

/-- The walk leads to a directory that is gone into. -/
inductive Open : List String → Prop
  | root : Open []
  | deeper {walk : List String} {x : String} (h : Open walk) (hx : x ∈ children disk root walk)
      (hdir : disk.isDirectory (entryPath root (walk ++ [x])) = true)
      (hcut : ¬ Cut disk root (walk ++ [x])) (hexcluded : ¬ Excluded disk options root (walk ++ [x])) :
      Open (walk ++ [x])

/-- What is collected of a walk that is not left out. -/
def entryOf (walk : List String) : Option FileEntry :=
  match describe disk options (entryPath root walk) (baseOf root)
    (disk.isDirectory (entryPath root walk)) with
  | .ok entry => entry
  | .error _ => none

/-- The walk leads to something that is collected: it is in a directory that is gone into, and
    is a file, or a directory with nothing in it. -/
inductive Collected : List String → Prop
  | intro {walk : List String} {x : String} {entry : FileEntry} (h : Open disk options root walk)
      (hx : x ∈ children disk root walk)
      (hcut : ¬ Cut disk root (walk ++ [x])) (hexcluded : ¬ Excluded disk options root (walk ++ [x]))
      (hentry : entryOf disk options root (walk ++ [x]) = some entry) : Collected (walk ++ [x])

end Open

section Facts

variable {disk : SourceDisk} {options : CollectOptions} {root : FsPath} {top : Place}
  {walk : List String} {x : String}

theorem inits_concat (walk : List String) (x : String) : (walk ++ [x]).inits = walk.inits ++ [walk ++ [x]] := by
  rw [List.inits_append]
  simp

theorem Open.isDirectory (hroot : RootAt disk root top) (h : Open disk options root walk) :
    ∃ place, disk.canonical (entryPath root walk) = some place ∧ isDir disk.tree place = true := by
  cases h with
  | root => exact ⟨top, hroot.isDirectory.1, hroot.dir⟩
  | deeper _ _ hdir => exact isDirectory_iff.mp hdir

theorem Open.names (h : Open disk options root walk) : Names walk := by
  induction h with
  | root => exact fun x hx => absurd hx List.not_mem_nil
  | deeper _ hx _ _ _ ih =>
    intro y hy
    rcases List.mem_append.mp hy with hy | hy
    · exact ih y hy
    · obtain rfl := List.mem_singleton.mp hy
      exact isName_of_mem_children hx

/-- A directory is gone into from the one around it. -/
theorem Open.init (h : Open disk options root (walk ++ [x])) :
    Open disk options root walk ∧ x ∈ children disk root walk ∧
      disk.isDirectory (entryPath root (walk ++ [x])) = true ∧
      ¬ Cut disk root (walk ++ [x]) ∧ ¬ Excluded disk options root (walk ++ [x]) := by
  generalize heq : walk ++ [x] = other at h
  cases h with
  | root => simp at heq
  | @deeper walk' x' h hx hdir hcut hexcluded =>
    obtain ⟨rfl, hsame⟩ := List.append_inj' heq rfl
    obtain rfl := List.singleton_inj.mp hsame
    exact ⟨h, hx, hdir, hcut, hexcluded⟩

theorem Open.shorter {other : List String} (h : Open disk options root walk) (hpre : other <+: walk) :
    Open disk options root other := by
  induction h with
  | root => exact List.prefix_nil.mp hpre ▸ .root
  | @deeper walk x h hx hdir hcut hexcluded ih =>
    rcases List.prefix_concat_iff.mp hpre with rfl | hshort
    · exact .deeper h hx hdir hcut hexcluded
    · exact ih hshort

theorem directoriesOn_concat (walk : List String) (x : String) :
    directoriesOn disk root (walk ++ [x]) =
      directoriesOn disk root walk ++ (disk.canonical (entryPath root (walk ++ [x]))).toList := by
  rw [directoriesOn, inits_concat, List.filterMap_append]
  cases h : disk.canonical (entryPath root (walk ++ [x])) <;> simp [directoriesOn, h]

/-- **A walk comes through no directory twice.** -/
theorem Open.nodup (hroot : RootAt disk root top) (h : Open disk options root walk) :
    (directoriesOn disk root walk).Nodup ∧ (directoriesOn disk root walk).length = walk.length + 1 := by
  induction h with
  | root =>
    have hnil : directoriesOn disk root [] = [top] := by
      simp [directoriesOn, hroot.isDirectory.1]
    rw [hnil]
    exact ⟨List.nodup_singleton top, rfl⟩
  | @deeper walk x h hx hdir hcut hexcluded ih =>
    obtain ⟨place, hplace, hisDir⟩ := isDirectory_iff.mp hdir
    rw [directoriesOn_concat, hplace]
    refine ⟨List.nodup_append.mpr ⟨ih.1, List.nodup_singleton place, ?_⟩, by simp [ih.2]⟩
    intro other hother place' hplace' heq
    obtain rfl := List.mem_singleton.mp hplace'
    refine hcut ⟨place', hplace, hisDir, ?_⟩
    rw [List.dropLast_concat]
    exact heq ▸ hother

theorem tail_inits_concat (walk : List String) (x : String) :
    (walk ++ [x]).inits.tail = walk.inits.tail ++ [walk ++ [x]] := by
  rw [inits_concat, List.tail_append_of_ne_nil]
  cases walk <;> simp

/-- What is collected below a directory is come to through it. -/
theorem Collected.below {here : List String} (h : Collected disk options root walk)
    (hpre : here <+: walk) (hne : walk ≠ here) :
    Open disk options root here ∧ ∃ y ∈ children disk root here, here ++ [y] <+: walk := by
  cases h with
  | @intro inner x entry hopen hx _ _ _ =>
    have hinner : here <+: inner := by
      rcases List.prefix_concat_iff.mp hpre with heq | hinner
      · exact absurd heq.symm hne
      · exact hinner
    refine ⟨hopen.shorter hinner, ?_⟩
    obtain ⟨rest, hrest⟩ := hinner
    cases rest with
    | nil =>
      obtain rfl : here = inner := by simpa using hrest
      exact ⟨x, hx, List.prefix_rfl⟩
    | cons y rest =>
      have hnext : here ++ [y] <+: inner := ⟨rest, by simpa using hrest⟩
      exact ⟨y, (hopen.shorter hnext).init.2.1, hnext.trans (List.prefix_append inner [x])⟩

/-- Rules that match nothing here can be left out. -/
theorem ignored_filter {cwd : List String} {start : List Rule} {seen : List (List String)}
    {rulesIn : List String → List Rule} {p : List String → Bool} {path : FsPath} {isDirectory : Bool}
    (h : ∀ other ∈ seen, p other = false →
      ∀ rule ∈ rulesIn other, matchRule cwd path isDirectory rule = false) :
    ignored cwd (start ++ seen.flatMap rulesIn) path isDirectory =
      ignored cwd (start ++ (seen.filter p).flatMap rulesIn) path isDirectory := by
  have hquiet : ∀ (rules : List Rule) (decided : Bool),
      (∀ rule ∈ rules, matchRule cwd path isDirectory rule = false) →
      rules.foldl (fun ignored rule =>
        if matchRule cwd path isDirectory rule then !rule.negated else ignored) decided = decided := by
    intro rules
    induction rules with
    | nil => exact fun _ _ => rfl
    | cons rule rules ih =>
      intro decided hrules
      rw [List.foldl_cons, hrules rule List.mem_cons_self]
      exact ih decided fun rule hrule => hrules rule (List.mem_cons_of_mem _ hrule)
  unfold ignored
  rw [List.foldl_append, List.foldl_append]
  generalize start.foldl _ false = decided
  induction seen generalizing decided with
  | nil => rfl
  | cons other seen ih =>
    have hrest := ih fun u hu => h u (List.mem_cons_of_mem _ hu)
    rw [List.flatMap_cons, List.foldl_append]
    by_cases hp : p other = true
    · rw [List.filter_cons_of_pos hp, List.flatMap_cons, List.foldl_append]
      exact hrest _
    · rw [List.filter_cons_of_neg hp, hquiet _ _ (h other List.mem_cons_self (by simpa using hp))]
      exact hrest _

end Facts

/-! ## What the loop keeps

`position` is a position of the iterator in the sense of `Kiko.Lib.Preorder`: a stack of frames,
each a directory and what is left of it. For every frame the invariant says that its directory is
open and that the list of ancestors, cut to its depth, is the canonical directories on the way to
it; for the rules, which of them hold there. `RoundSpec` says what a round does without saying
how, so that the preservation proof never unfolds the code. -/

section Loop

variable {disk : SourceDisk} {options : CollectOptions} {root : FsPath} {top : Place}
  {s s' : CollectState} {here : List String}

/-- The walk is one that the loop goes on below. -/
def Enters (disk : SourceDisk) (options : CollectOptions) (root : FsPath) (here : List String) : Prop :=
  disk.isDirectory (entryPath root here) = true ∧ ¬ Cut disk root here ∧
    ¬ Excluded disk options root here

structure Inv (disk : SourceDisk) (options : CollectOptions) (root : FsPath) (s : CollectState) :
    Prop where
  linked : Preorder.Linked (children disk root) s.position
  settled : Preorder.Settled s.position
  opened : ∀ frame ∈ s.position, Open disk options root frame.walk
  /-- cut to the depth of a directory, the list is the directories it was come to through -/
  ancestors : ∀ frame ∈ s.position,
    s.ancestors.take (frame.walk.length + 1) = directoriesOn disk root frame.walk
  /-- the ignore files that were read: of those in or above a directory, exactly the ones on the
      walk to it -/
  rules : ∃ seen : List (List String),
    s.rules = (if options.useGitignore then loadGitignoreStack disk root else []) ++
      seen.flatMap (ignoreRulesIn disk options root) ∧
    (∀ frame ∈ s.position, (seen.filter fun other => decide (other <+: frame.walk)) =
      frame.walk.inits.tail) ∧
    ∀ other ∈ seen, other ≠ [] ∧ Names other ∧ ¬ Preorder.Ahead s.position other
  collected : ∃ out : List (List String),
    s.entries = out.filterMap (entryOf disk options root) ∧ out.Nodup ∧
    (∀ walk ∈ out, Collected disk options root walk ∧ ¬ Preorder.Ahead s.position walk) ∧
    ∀ walk, Collected disk options root walk → walk ∈ out ∨ Preorder.Ahead s.position walk

/-- What a round does, at a walk in a directory it has gone into. -/
structure RoundSpec (disk : SourceDisk) (options : CollectOptions) (root : FsPath) (s : CollectState)
    (here : List String) (s' : CollectState) : Prop where
  position : ∃ recurse : Bool, (recurse = true ↔ Enters disk options root here) ∧
    s'.position = Preorder.advance (children disk root) recurse s.position
  ancestors : ∃ extra, s'.ancestors = directoriesOn disk root here.dropLast ++ extra ∧
    (Enters disk options root here → extra = (disk.canonical (entryPath root here)).toList)
  rules : Enters disk options root here ∧ s'.rules = s.rules ++ ignoreRulesIn disk options root here ∨
    ¬ Enters disk options root here ∧ s'.rules = s.rules
  entries : (¬ Cut disk root here ∧ ¬ Excluded disk options root here) ∧
      s'.entries = s.entries ++ (entryOf disk options root here).toList ∨
    (Cut disk root here ∨ Excluded disk options root here ∨ entryOf disk options root here = none) ∧
      s'.entries = s.entries

/-- Where a loop that is not at its end stands. -/
theorem Inv.standing (h : Inv disk options root s) (hhere : Preorder.current s.position = some here) :
    ∃ walk x left below, s.position = ⟨walk, x :: left⟩ :: below ∧ here = walk ++ [x] ∧
      x ∈ children disk root walk ∧ Open disk options root walk ∧
      below.length = walk.length := by
  match hposition : s.position, hhere with
  | ⟨walk, x :: left⟩ :: below, hhere =>
    have hlinked : Preorder.Linked (children disk root) (⟨walk, x :: left⟩ :: below) := hposition ▸ h.linked
    refine ⟨walk, x, left, below, rfl, (Option.some.inj hhere).symm, hlinked.drop.2.1, ?_,
      hlinked.length_walk.symm⟩
    exact h.opened ⟨walk, x :: left⟩ (by rw [hposition]; exact List.mem_cons_self)

/-- **At the head of a round the list is the canonical directories on the walk.** -/
theorem Inv.trimmed (hfollow : options.follow = true) (h : Inv disk options root s)
    (hhere : Preorder.current s.position = some here) :
    trimmed options s = directoriesOn disk root here.dropLast := by
  obtain ⟨walk, x, left, below, hposition, rfl, -, -, hlength⟩ := h.standing hhere
  have hdepth : Preorder.depth s.position + 1 = walk.length + 1 := by
    rw [Preorder.depth, hposition, List.length_cons, Nat.add_sub_cancel, hlength]
  rw [Transfer.trimmed, if_pos hfollow, hdepth, List.dropLast_concat]
  exact h.ancestors ⟨walk, x :: left⟩ (by rw [hposition]; exact List.mem_cons_self)

/-- Of what was read before, what holds here holds in the directory around it. -/
theorem filter_prefix_concat {seen : List (List String)} {walk : List String} {x : String}
    (h : walk ++ [x] ∉ seen) :
    (seen.filter fun other => decide (other <+: walk ++ [x])) =
      seen.filter fun other => decide (other <+: walk) := by
  refine List.filter_congr fun other hother => ?_
  have hne : other ≠ walk ++ [x] := fun heq => h (heq ▸ hother)
  simp [List.prefix_concat_iff, hne]

/-- The rules that were read elsewhere decide nothing here. -/
theorem Inv.ignored (h : Inv disk options root s) (hhere : Preorder.current s.position = some here)
    (isDirectory : Bool) :
    ignored disk.cwd s.rules (entryPath root here) isDirectory =
      ignored disk.cwd (rulesOn disk options root here.dropLast) (entryPath root here) isDirectory := by
  obtain ⟨walk, x, left, below, hposition, rfl, hx, hopen, -⟩ := h.standing hhere
  obtain ⟨seen, hrules, hon, hseen⟩ := h.rules
  have hnames : Names (walk ++ [x]) := by
    intro y hy
    rcases List.mem_append.mp hy with hy | hy
    · exact hopen.names y hy
    · obtain rfl := List.mem_singleton.mp hy
      exact isName_of_mem_children hx
  have hahead : Preorder.Ahead s.position (walk ++ [x]) := Preorder.ahead_current hhere
  have hsame := filter_prefix_concat fun h => (hseen _ h).2.2 hahead
  have htop := hon ⟨walk, x :: left⟩ (by rw [hposition]; exact List.mem_cons_self)
  rw [hrules, rulesOn, List.dropLast_concat, ← htop, ← hsame]
  refine ignored_filter fun other hother hpre rule hrule => ?_
  have hnot : ¬ other <+: walk ++ [x] := by simpa using hpre
  unfold ignoreRulesIn at hrule
  by_cases huse : options.useGitignore = true
  · rw [if_pos huse] at hrule
    exact matchRule_addIgnoreFile (by simp) (fun y hy => (hnames y hy).1) (hseen other hother).1
      (fun y hy => ((hseen other hother).2.1 y hy).1) hnot hrule isDirectory
  · rw [if_neg huse] at hrule
    exact absurd hrule List.not_mem_nil

theorem follow_iff : options.follow = true ↔ options.symlinkMode = .follow := by
  simp [CollectOptions.follow]

/-- Where links are followed nothing that is collected can be refused. -/
theorem describe_follow (hfollow : options.follow = true) :
    describe disk options (entryPath root here) (baseOf root)
      (disk.isDirectory (entryPath root here)) = .ok (entryOf disk options root here) := by
  have hmode : ¬ (options.symlinkMode = .preserve ∧ disk.isSymlink (entryPath root here) = true) := by
    rw [follow_iff.mp hfollow]
    exact fun h => nomatch h.1
  have hok : ∃ entry, describe disk options (entryPath root here) (baseOf root)
      (disk.isDirectory (entryPath root here)) = .ok entry := by
    unfold describe
    rw [if_neg hmode]
    split
    · exact ⟨_, rfl⟩
    · split <;> exact ⟨_, rfl⟩
  obtain ⟨entry, hentry⟩ := hok
  rw [entryOf, hentry]

theorem collectVisible_follow (hfollow : options.follow = true) :
    collectVisible disk options root s (entryPath root here) (disk.isDirectory (entryPath root here)) =
      .ok (if (options.useGitignore && Kiko.GitIgnore.ignored disk.cwd s.rules (entryPath root here)
          (disk.isDirectory (entryPath root here))) = true
        then (s, !disk.isDirectory (entryPath root here))
        else ({ s with
          rules := if disk.isDirectory (entryPath root here) = true
            then s.rules ++ ignoreRulesIn disk options root here else s.rules
          entries := s.entries ++ (entryOf disk options root here).toList }, true)) := by
  unfold collectVisible
  by_cases hignored : (options.useGitignore && Kiko.GitIgnore.ignored disk.cwd s.rules
      (entryPath root here) (disk.isDirectory (entryPath root here))) = true
  · rw [if_pos hignored, if_pos hignored]
    rfl
  · rw [if_neg hignored, if_neg hignored]
    simp only [describe_follow hfollow, bind, Except.bind]
    have hrules : (if (options.useGitignore && disk.isDirectory (entryPath root here)) = true
          then addIgnoreFile disk s.rules (gitignoreIn (entryPath root here)) else s.rules) =
        if disk.isDirectory (entryPath root here) = true
          then s.rules ++ ignoreRulesIn disk options root here else s.rules := by
      unfold ignoreRulesIn
      cases options.useGitignore <;> cases disk.isDirectory (entryPath root here) <;>
        simp [← addIgnoreFile_eq]
    rw [hrules]
    rfl

theorem cut_iff {place : Place} (hplace : disk.canonical (entryPath root here) = some place)
    (hdir : isDir disk.tree place = true) :
    Cut disk root here ↔ place ∈ directoriesOn disk root here.dropLast := by
  constructor
  · rintro ⟨other, hother, -, hmem⟩
    obtain rfl := Option.some.inj (hplace.symm.trans hother)
    exact hmem
  · intro hmem
    exact ⟨place, hplace, hdir, hmem⟩

theorem not_cut (h : disk.isDirectory (entryPath root here) = false) : ¬ Cut disk root here := by
  rintro ⟨place, hplace, hdir, -⟩
  exact absurd (isDirectory_iff.mpr ⟨place, hplace, hdir⟩) (by simp [h])

/-- What is not cut and can be told is looked at, and is collected unless it is excluded. -/
theorem RoundSpec.of_visible (hfollow : options.follow = true)
    (hcut : ¬ Cut disk root here) {extra : List Place}
    (hextra : disk.isDirectory (entryPath root here) = true →
      extra = (disk.canonical (entryPath root here)).toList)
    (hexcluded : (options.useGitignore && Kiko.GitIgnore.ignored disk.cwd s.rules (entryPath root here)
        (disk.isDirectory (entryPath root here))) = true ↔ Excluded disk options root here) :
    ∃ s' pending, collectVisible disk options root
        { s with ancestors := directoriesOn disk root here.dropLast ++ extra }
        (entryPath root here) (disk.isDirectory (entryPath root here)) = .ok (s', pending) ∧
      RoundSpec disk options root s here { s' with
        position := Preorder.advance (children disk root)
          (recursesInto disk options root pending here) s.position } := by
  have hvisible := @collectVisible_follow disk options root
    { s with ancestors := directoriesOn disk root here.dropLast ++ extra } here hfollow
  by_cases hex : Excluded disk options root here
  · rw [if_pos (hexcluded.mpr hex)] at hvisible
    refine ⟨_, _, hvisible, ?_⟩
    have hnot : ¬ Enters disk options root here := fun h => h.2.2 hex
    refine ⟨⟨_, ?_, rfl⟩, ⟨extra, rfl, fun h => absurd h hnot⟩, .inr ⟨hnot, rfl⟩, .inr ⟨.inr (.inl hex), rfl⟩⟩
    refine ⟨fun h => ?_, fun h => absurd h hnot⟩
    unfold recursesInto at h
    cases hdir : disk.isDirectory (entryPath root here) <;> simp [hdir] at h
  · rw [if_neg (fun h => hex (hexcluded.mp h))] at hvisible
    refine ⟨_, _, hvisible, ?_⟩
    have henters : Enters disk options root here ↔ disk.isDirectory (entryPath root here) = true :=
      ⟨fun h => h.1, fun h => ⟨h, hcut, hex⟩⟩
    refine ⟨⟨_, ?_, rfl⟩, ⟨extra, rfl, fun h => hextra h.1⟩, ?_, .inl ⟨⟨hcut, hex⟩, rfl⟩⟩
    · rw [henters]
      simp [recursesInto, hfollow]
    · by_cases hdir : disk.isDirectory (entryPath root here) = true
      · exact .inl ⟨henters.mpr hdir, if_pos hdir⟩
      · exact .inr ⟨fun h => hdir (henters.mp h), if_neg hdir⟩

/-- **What one round does**, in a state that keeps the invariant. -/
theorem Inv.round (hfollow : options.follow = true) (hroot : RootAt disk root top)
    (h : Inv disk options root s) (hhere : Preorder.current s.position = some here) :
    ∃ s', collectStep disk options root s here = .ok s' ∧ RoundSpec disk options root s here s' := by
  obtain ⟨walk, x, left, below, hposition, rfl, hx, hopen, -⟩ := h.standing hhere
  have hexists := symlinkStatus_of_mem_children hroot hx
  have hlisted : (disk.symlinkStatus (entryPath root (walk ++ [x]))).isNone = false := by
    cases hstatus : disk.symlinkStatus (entryPath root (walk ++ [x])) with
    | none => simp [hstatus] at hexists
    | some node => rfl
  -- The code asks all the rules it has; here only those on the walk matter.
  have hexcluded : (options.useGitignore && Kiko.GitIgnore.ignored disk.cwd s.rules
      (entryPath root (walk ++ [x])) (disk.isDirectory (entryPath root (walk ++ [x])))) = true ↔
      Excluded disk options root (walk ++ [x]) := by
    rw [h.ignored hhere, Bool.and_eq_true]
    rfl
  -- The round, with the list it trims replaced by what that is.
  have hentry : collectEntry disk options root s (walk ++ [x]) =
      (if (disk.status (entryPath root (walk ++ [x]))).isNone then
        .ok ({ s with ancestors := directoriesOn disk root walk }, true)
      else if disk.isDirectory (entryPath root (walk ++ [x])) then
        (disk.canonical (entryPath root (walk ++ [x]))).elim
          (.error ("failed to resolve source directory: " ++ (entryPath root (walk ++ [x])).text)) fun directory =>
            if directory ∈ directoriesOn disk root walk then
              .ok ({ s with ancestors := directoriesOn disk root walk }, false)
            else collectVisible disk options root
              { s with ancestors := directoriesOn disk root walk ++ [directory] }
              (entryPath root (walk ++ [x])) true
      else collectVisible disk options root { s with ancestors := directoriesOn disk root walk }
        (entryPath root (walk ++ [x])) false) := by
    have htrimmed := h.trimmed hfollow hhere
    rw [List.dropLast_concat] at htrimmed
    unfold collectEntry
    simp only [hlisted, hfollow, htrimmed, Bool.or_true, Bool.true_and, Bool.false_eq_true, if_false]
    cases (disk.status (entryPath root (walk ++ [x]))).isNone <;>
      cases disk.isDirectory (entryPath root (walk ++ [x])) <;>
      cases disk.canonical (entryPath root (walk ++ [x])) <;> rfl
  have hstep : ∀ {s' : CollectState} {pending : Bool},
      collectEntry disk options root s (walk ++ [x]) = .ok (s', pending) →
      collectStep disk options root s (walk ++ [x]) = .ok { s' with
        position := Preorder.advance (children disk root)
          (recursesInto disk options root pending (walk ++ [x])) s.position } := by
    intro s' pending hentry
    rw [collectStep, hentry]
    rfl
  have hdropLast : directoriesOn disk root (walk ++ [x]).dropLast = directoriesOn disk root walk := by
    rw [List.dropLast_concat]
  rcases @status_concat disk root top walk x hroot (isName_of_mem_children hx).1 with
    hnone | hdirectory | ⟨info, hfile⟩
  · -- the path leads nowhere, and is passed over
    have hdir : disk.isDirectory (entryPath root (walk ++ [x])) = false := by
      simp [SourceDisk.isDirectory, hnone]
    have hnot : ¬ Enters disk options root (walk ++ [x]) := fun h => Bool.false_ne_true (hdir.symm.trans h.1)
    have hskipped : entryOf disk options root (walk ++ [x]) = none := by
      have := @describe_follow disk options root (walk ++ [x]) hfollow
      simpa [describe, hnone, hdir, follow_iff.mp hfollow] using this.symm
    rw [hnone, Option.isNone_none, if_pos rfl] at hentry
    refine ⟨_, hstep hentry, ⟨⟨_, ?_, rfl⟩, ⟨[], ?_, fun h => absurd h hnot⟩, .inr ⟨hnot, rfl⟩,
      .inr ⟨.inr (.inr hskipped), rfl⟩⟩⟩
    · simp [recursesInto, hdir, hnot]
    · rw [hdropLast, List.append_nil]
  · have hdir : disk.isDirectory (entryPath root (walk ++ [x])) = true := by
      simp [SourceDisk.isDirectory, hdirectory]
    obtain ⟨place, hplace, hisDir⟩ := isDirectory_iff.mp hdir
    have hcut := cut_iff hplace hisDir
    rw [hdropLast] at hcut
    rw [hdirectory, hdir, hplace] at hentry
    simp only [Option.isNone_some, Bool.false_eq_true, if_false, if_true, Option.elim_some] at hentry
    by_cases hmem : place ∈ directoriesOn disk root walk
    · -- the walk has come through this directory, and the list says so
      rw [if_pos hmem] at hentry
      have hnot : ¬ Enters disk options root (walk ++ [x]) := fun h => h.2.1 (hcut.mpr hmem)
      refine ⟨_, hstep hentry, ⟨⟨_, ?_, rfl⟩, ⟨[], ?_, fun h => absurd h hnot⟩, .inr ⟨hnot, rfl⟩,
        .inr ⟨.inl (hcut.mpr hmem), rfl⟩⟩⟩
      · simp [recursesInto, hnot]
      · rw [hdropLast, List.append_nil]
    · rw [if_neg hmem] at hentry
      obtain ⟨s', pending, hvisible, hspec⟩ := @RoundSpec.of_visible disk options root s (walk ++ [x])
        hfollow (fun h => hmem (hcut.mp h)) [place] (fun _ => by rw [hplace]; rfl) hexcluded
      rw [hdropLast, hdir] at hvisible
      exact ⟨_, hstep (hentry.trans hvisible), hspec⟩
  · have hdir : disk.isDirectory (entryPath root (walk ++ [x])) = false := by
      simp [SourceDisk.isDirectory, hfile]
    rw [hfile, hdir] at hentry
    simp only [Option.isNone_some, Bool.false_eq_true, if_false] at hentry
    obtain ⟨s', pending, hvisible, hspec⟩ := @RoundSpec.of_visible disk options root s (walk ++ [x])
      hfollow (not_cut hdir) [] (fun h => by simp [hdir] at h) hexcluded
    rw [hdropLast, List.append_nil, hdir] at hvisible
    exact ⟨_, hstep (hentry.trans hvisible), hspec⟩

/-- Where the round has moved on to: what was passed is no longer ahead. -/
theorem not_ahead_here {recurse : Bool} (h : Inv disk options root s)
    (hhere : Preorder.current s.position = some here) :
    ¬ Preorder.Ahead (Preorder.advance (children disk root) recurse s.position) here := by
  intro hahead
  obtain ⟨-, hbelow⟩ := (Preorder.ahead_advance h.linked hhere).mp hahead
  obtain ⟨-, y, -, hy⟩ := hbelow List.prefix_rfl
  have := hy.length_le
  simp at this

/-- What is collected and was ahead is ahead still, or is what the round is about. -/
theorem RoundSpec.ahead (h : Inv disk options root s) (hhere : Preorder.current s.position = some here)
    (hspec : RoundSpec disk options root s here s') {walk : List String}
    (hcollected : Collected disk options root walk) (hahead : Preorder.Ahead s.position walk) :
    walk = here ∨ Preorder.Ahead s'.position walk := by
  obtain ⟨recurse, hrecurse, hposition⟩ := hspec.position
  by_cases heq : walk = here
  · exact .inl heq
  right
  rw [hposition, Preorder.ahead_advance h.linked hhere]
  refine ⟨hahead, fun hpre => ?_⟩
  obtain ⟨hopen, hbelow⟩ := hcollected.below hpre heq
  obtain ⟨dir, x, left, below, -, rfl, -, -, -⟩ := h.standing hhere
  obtain ⟨-, -, hdir, hcut, hexcluded⟩ := hopen.init
  exact ⟨hrecurse.mpr ⟨hdir, hcut, hexcluded⟩, hbelow⟩

/-- **The invariant is kept by a round.** -/
theorem Inv.step (hroot : RootAt disk root top) (h : Inv disk options root s)
    (hhere : Preorder.current s.position = some here)
    (hspec : RoundSpec disk options root s here s') : Inv disk options root s' := by
  have hahead := Preorder.ahead_current hhere
  have hpassed : ∀ recurse, ¬ Preorder.Ahead
      (Preorder.advance (children disk root) recurse s.position) here := fun recurse =>
    not_ahead_here h hhere
  obtain ⟨walk, x, left, below, hstanding, hhereEq, hx, hopen, -⟩ := h.standing hhere
  obtain ⟨recurse, hrecurse, hposition⟩ := hspec.position
  -- A frame of the new position is the directory just gone into, or one of those there were.
  have hmoved : ∀ frame ∈ s'.position, Enters disk options root here ∧ frame.walk = here ∨
      ∃ other ∈ s.position, other.walk = frame.walk := by
    intro frame hframe
    rw [hposition] at hframe
    rcases Preorder.walk_of_mem_advance hhere hframe with ⟨hinto, hwalk⟩ | hold
    · exact .inl ⟨hrecurse.mp hinto, hwalk⟩
    · exact .inr hold
  have houter : ∀ other ∈ s.position, other.walk <+: walk := by
    intro other hother
    have hlinked := h.linked
    rw [hstanding] at hlinked hother
    exact hlinked.walk_prefix hother
  -- Nothing comes ahead that was not: a round only moves on.
  have hlater : ∀ w, Preorder.Ahead s'.position w → Preorder.Ahead s.position w := by
    intro w hw
    rw [hposition] at hw
    exact ((Preorder.ahead_advance h.linked hhere).mp hw).1
  have hentered : Enters disk options root here → Open disk options root here := by
    rintro ⟨hdir, hcut, hexcluded⟩
    subst hhereEq
    exact .deeper hopen hx hdir hcut hexcluded
  constructor
  case linked =>
    rw [hposition]
    exact h.linked.advance nodup_children recurse
  case settled =>
    rw [hposition]
    exact Preorder.settled_advance h.settled recurse
  case opened =>
    intro frame hframe
    rcases hmoved frame hframe with ⟨henters, hwalk⟩ | ⟨other, hother, hwalk⟩
    · exact hwalk ▸ hentered henters
    · exact hwalk ▸ h.opened other hother
  case ancestors =>
    intro frame hframe
    obtain ⟨extra, hancestors, hextra⟩ := hspec.ancestors
    have hdropLast : here.dropLast = walk := by rw [hhereEq, List.dropLast_concat]
    rw [hdropLast] at hancestors
    rcases hmoved frame hframe with ⟨henters, hwalk⟩ | ⟨other, hother, hwalk⟩
    -- the directory gone into: the round has pushed its canonical place on the cut list
    · have hwhole : s'.ancestors = directoriesOn disk root here := by
        rw [hancestors, hextra henters, hhereEq, directoriesOn_concat]
      rw [hwalk, hwhole]
      exact List.take_of_length_le ((hentered henters).nodup hroot).2.le
    -- a frame further out: the list is cut to its depth, below what the round has pushed
    · have htop := h.ancestors ⟨walk, x :: left⟩ (by rw [hstanding]; exact List.mem_cons_self)
      have hlength := (hopen.nodup hroot).2
      have hle := (houter other hother).length_le
      rw [← hwalk, hancestors, List.take_append_of_le_length (by omega), ← htop, List.take_take,
        Nat.min_eq_left (by simpa using hle)]
      exact h.ancestors other hother
  case rules =>
    obtain ⟨seen, hrules, hon, hseen⟩ := h.rules
    rcases hspec.rules with ⟨henters, hadded⟩ | ⟨hnot, hsame⟩
    · refine ⟨seen ++ [here], ?_, ?_, ?_⟩
      · rw [hadded, hrules, List.flatMap_append, List.append_assoc]
        simp
      · intro frame hframe
        rcases hmoved frame hframe with ⟨-, hwalk⟩ | ⟨other, hother, hwalk⟩
        · have htop := hon ⟨walk, x :: left⟩ (by rw [hstanding]; exact List.mem_cons_self)
          -- The rules of this directory have not been read before: what was seen has been
          -- passed.
          have hnew : walk ++ [x] ∉ seen := by
            intro hmem
            exact (hseen _ hmem).2.2 (hhereEq ▸ hahead)
          rw [hwalk, hhereEq, List.filter_append, filter_prefix_concat hnew, htop, tail_inits_concat]
          simp
        -- Rules that were read here do not hold further out.
        · have hshort : ¬ here <+: other.walk := by
            intro hpre
            have := (hpre.trans (houter other hother)).length_le
            rw [hhereEq, List.length_append] at this
            simp at this
          rw [← hwalk, List.filter_append, hon other hother]
          simp [hshort]
      · intro other hother
        rcases List.mem_append.mp hother with hold | hnew
        · obtain ⟨hne, hnames, hnot⟩ := hseen other hold
          exact ⟨hne, hnames, fun hw => hnot (hlater other hw)⟩
        · obtain rfl := List.mem_singleton.mp hnew
          refine ⟨by simp [hhereEq], (hentered henters).names, ?_⟩
          rw [hposition]
          exact hpassed recurse
    · refine ⟨seen, hsame.trans hrules, ?_, ?_⟩
      · intro frame hframe
        rcases hmoved frame hframe with ⟨henters, -⟩ | ⟨other, hother, hwalk⟩
        · exact absurd henters hnot
        · rw [← hwalk]
          exact hon other hother
      · intro other hother
        obtain ⟨hne, hnames, hnot⟩ := hseen other hother
        exact ⟨hne, hnames, fun hw => hnot (hlater other hw)⟩
  case collected =>
    obtain ⟨out, hentries, hnodup, hsound, hcomplete⟩ := h.collected
    -- What has been collected stays collected, and is not ahead of the new position.
    have hkept : ∀ w ∈ out, Collected disk options root w ∧ ¬ Preorder.Ahead s'.position w :=
      fun w hw => ⟨(hsound w hw).1, fun hlate => (hsound w hw).2 (hlater w hlate)⟩
    -- What is to be collected and was ahead is ahead, or it is what this round is about.
    have hrest : ∀ w, Collected disk options root w → w ∈ out ∨ w = here ∨ Preorder.Ahead s'.position w := by
      intro w hw
      rcases hcomplete w hw with hmem | hlate
      · exact .inl hmem
      · exact .inr (RoundSpec.ahead h hhere hspec hw hlate)
    by_cases hcollected : Collected disk options root here
    · -- the round collects here
      obtain ⟨entry, hentry, hadded⟩ : ∃ entry, entryOf disk options root here = some entry ∧
          s'.entries = s.entries ++ [entry] := by
        cases hcollected with
        | @intro walk' x' entry hopen' hx' hcut hexcluded hentry =>
          rcases hspec.entries with ⟨-, hadded⟩ | ⟨hout, -⟩
          · exact ⟨entry, hentry, by rw [hadded, hentry]; rfl⟩
          · rcases hout with hcut' | hexcluded' | hnone
            · exact absurd hcut' hcut
            · exact absurd hexcluded' hexcluded
            · rw [hnone] at hentry
              cases hentry
      refine ⟨out ++ [here], ?_, ?_, ?_, ?_⟩
      · rw [hadded, hentries, List.filterMap_append]
        simp [hentry]
      · refine List.nodup_append.mpr ⟨hnodup, List.nodup_singleton here, ?_⟩
        rintro w hw w' hw' rfl
        obtain rfl := List.mem_singleton.mp hw'
        exact (hsound w hw).2 hahead
      · intro w hw
        rcases List.mem_append.mp hw with hold | hnew
        · exact hkept w hold
        · obtain rfl := List.mem_singleton.mp hnew
          refine ⟨hcollected, ?_⟩
          rw [hposition]
          exact hpassed recurse
      · intro w hw
        rcases hrest w hw with hold | rfl | hlate
        · exact .inl (List.mem_append_left _ hold)
        · exact .inl (by simp)
        · exact .inr hlate
    -- the round collects nothing: it has cut or excluded the walk, or gone into it
    · have hsame : s'.entries = s.entries := by
        rcases hspec.entries with ⟨⟨hcut, hexcluded⟩, hadded⟩ | ⟨-, hsame⟩
        · cases hentry : entryOf disk options root here with
          | none => rw [hadded, hentry, Option.toList_none, List.append_nil]
          | some entry =>
            subst hhereEq
            exact absurd (.intro hopen hx hcut hexcluded hentry) hcollected
        · exact hsame
      refine ⟨out, hsame.trans hentries, hnodup, hkept, fun w hw => ?_⟩
      rcases hrest w hw with hold | rfl | hlate
      · exact .inl hold
      · exact absurd hw hcollected
      · exact .inr hlate

end Loop

/-! ## The whole run

Termination is a bound on the walks: an open walk comes through no directory twice, so it is no
longer than there are directories, and the walks that can be ahead are finitely many. -/

section Run

variable {disk : SourceDisk} {options : CollectOptions} {root : FsPath} {top : Place}

theorem Inv.start (hfollow : options.follow = true) (hroot : RootAt disk root top) :
    Inv disk options root (collectStart disk options root top) := by
  have hframe : ∀ frame ∈ (collectStart disk options root top).position, frame.walk = [] := by
    intro frame hframe
    obtain rfl := List.mem_singleton.mp (Preorder.mem_of_mem_settle hframe)
    rfl
  constructor
  case linked => exact .start (nodup_children [])
  case settled => exact Preorder.settled_settle _
  case opened => exact fun frame hmem => hframe frame hmem ▸ .root
  case ancestors =>
    intro frame hmem
    have htop : (collectStart disk options root top).ancestors = [top] := if_pos hfollow
    rw [hframe frame hmem, htop, directoriesOn, List.inits]
    simp [hroot.isDirectory.1]
  case rules =>
    refine ⟨[], by simp [collectStart], ?_, by simp⟩
    intro frame hmem
    rw [hframe frame hmem]
    rfl
  case collected =>
    refine ⟨[], rfl, List.nodup_nil, by simp, fun walk hwalk => .inr ?_⟩
    have hne : walk ≠ [] := by
      cases hwalk
      simp
    exact Preorder.ahead_start.mpr (hwalk.below List.nil_prefix hne).2

/-! ### It ends -/

theorem mem_places {places : List Place} (hplaces : ∀ place, (disk.tree place).isSome → place ∈ places)
    {place : Place} (h : isDir disk.tree place = true) : place ∈ [] :: places := by
  by_cases hnil : place = []
  · rw [hnil]
    exact List.mem_cons_self
  refine List.mem_cons_of_mem _ (hplaces place ?_)
  unfold FileTree.isDir look at h
  rw [if_neg hnil] at h
  cases htree : disk.tree place with
  | none => simp [htree] at h
  | some node => rfl

theorem Open.mem_directoriesOn (hroot : RootAt disk root top) {walk : List String}
    (h : Open disk options root walk) :
    ∀ place ∈ directoriesOn disk root walk, isDir disk.tree place = true := by
  induction h with
  | root =>
    intro place hplace
    rw [directoriesOn, List.inits] at hplace
    obtain rfl : place = top := by simpa [hroot.isDirectory.1, eq_comm] using hplace
    exact hroot.dir
  | deeper _ _ hdir _ _ ih =>
    intro place hplace
    rw [directoriesOn_concat] at hplace
    rcases List.mem_append.mp hplace with hplace | hplace
    · exact ih place hplace
    · obtain ⟨there, hthere, hisDir⟩ := isDirectory_iff.mp hdir
      rw [hthere] at hplace
      obtain rfl := List.mem_singleton.mp hplace
      exact hisDir

/-- A walk that comes through no directory twice is no longer than there are directories. -/
theorem Open.length_le (hroot : RootAt disk root top) {places : List Place}
    (hplaces : ∀ place, (disk.tree place).isSome → place ∈ places) {walk : List String}
    (h : Open disk options root walk) : walk.length ≤ places.length := by
  obtain ⟨hnodup, hlength⟩ := h.nodup hroot
  have hsub : directoriesOn disk root walk ⊆ [] :: places := fun place hplace =>
    mem_places hplaces (h.mem_directoriesOn hroot place hplace)
  have hle := (hnodup.subperm hsub).length_le
  rw [hlength, List.length_cons] at hle
  exact Nat.le_of_succ_le_succ hle

theorem length_children_le {places : List Place}
    (hplaces : ∀ place, (disk.tree place).isSome → place ∈ places) (walk : List String) :
    (children disk root walk).length ≤ places.length := by
  cases hchildren : children disk root walk with
  | nil => exact Nat.zero_le _
  | cons x rest =>
    obtain ⟨place, hplace, hdir, -⟩ :=
      mem_children.mp (show x ∈ children disk root walk by rw [hchildren]; exact List.mem_cons_self)
    have hlisting : children disk root walk = disk.listing place := by
      simp [children, SourceDisk.namesIn, hplace, hdir]
    rw [← hchildren, hlisting]
    have hinjective : Function.Injective fun x : String => place ++ [x] := by
      intro x y hxy
      simpa using hxy
    have hsub : (disk.listing place).map (fun x => place ++ [x]) ⊆ places := by
      intro there hthere
      obtain ⟨x, hx, rfl⟩ := List.mem_map.mp hthere
      exact hplaces _ (disk.mem_listing place x hx)
    simpa using (((disk.nodup place).map hinjective).subperm hsub).length_le

/-- **The loop comes to its end**, and what it keeps holds there. -/
theorem collectLoop_ends (hfollow : options.follow = true) (hroot : RootAt disk root top)
    {places : List Place} (hplaces : ∀ place, (disk.tree place).isSome → place ∈ places) (enough : Nat)
    {s : CollectState} (h : Inv disk options root s)
    (hweight : Preorder.weight places.length places.length s.position ≤ enough) :
    ∃ s', Inv disk options root s' ∧ s'.position = [] ∧
      ∀ rounds, enough ≤ rounds → collectLoop disk options root rounds s = some (.ok s') := by
  induction enough generalizing s with
  | zero =>
    obtain hend | ⟨here, hhere⟩ := h.settled
    · refine ⟨s, h, hend, fun rounds _ => ?_⟩
      cases rounds <;> simp [collectLoop, hend, Preorder.current]
    · have := @Preorder.weight_advance _ (children disk root) places.length places.length s.position here
        false hhere (fun hfalse => nomatch hfalse) (length_children_le hplaces here)
      omega
  | succ enough ih =>
    obtain hend | ⟨here, hhere⟩ := h.settled
    · refine ⟨s, h, hend, fun rounds _ => ?_⟩
      cases rounds <;> simp [collectLoop, hend, Preorder.current]
    · obtain ⟨s₁, hstep, hspec⟩ := h.round hfollow hroot hhere
      have hnext := h.step hroot hhere hspec
      obtain ⟨recurse, hrecurse, hposition⟩ := hspec.position
      have hlimit : recurse = true → here.length ≤ places.length := by
        intro hinto
        obtain ⟨walk, x, left, below, -, rfl, hx, hopen, -⟩ := h.standing hhere
        obtain ⟨hdir, hcut, hexcluded⟩ := hrecurse.mp hinto
        exact (Open.deeper hopen hx hdir hcut hexcluded).length_le hroot hplaces
      have hsize := @length_children_le disk root places hplaces here
      have hless := Preorder.weight_advance hhere hlimit hsize
      rw [← hposition] at hless
      obtain ⟨s', hinv, hend, hrun⟩ := ih hnext (by omega)
      refine ⟨s', hinv, hend, fun rounds hrounds => ?_⟩
      obtain ⟨rounds, rfl⟩ : ∃ n, rounds = n + 1 := ⟨rounds - 1, by omega⟩
      rw [collectLoop, hhere]
      simp only [hstep]
      exact hrun rounds (by omega)

/-- More rounds than it takes change nothing. -/
theorem collectLoop_mono {rounds more : Nat} (hle : rounds ≤ more) {s : CollectState}
    {result : Except KikoError CollectState}
    (h : collectLoop disk options root rounds s = some result) :
    collectLoop disk options root more s = some result := by
  induction rounds generalizing s more with
  | zero =>
    rw [collectLoop] at h
    by_cases hend : Preorder.current s.position = none
    · rw [if_pos hend] at h
      cases more <;> simpa [collectLoop, hend] using h
    · rw [if_neg hend] at h
      cases h
  | succ rounds ih =>
    obtain ⟨more, rfl⟩ : ∃ n, more = n + 1 := ⟨more - 1, by omega⟩
    rw [collectLoop] at h ⊢
    cases hhere : Preorder.current s.position with
    | none =>
      rw [hhere] at h
      exact h
    | some here =>
      rw [hhere] at h
      simp only at h ⊢
      cases hstep : collectStep disk options root s here with
      | error e =>
        rw [hstep] at h
        exact h
      | ok s' =>
        rw [hstep] at h
        exact ih (by omega) h

/-! ### Every round of it -/

/-- A round of the loop, as a step. -/
def collectNext (disk : SourceDisk) (options : CollectOptions) (root : FsPath) (s : CollectState)
    (_ : Unit) : Option CollectState :=
  (Preorder.current s.position).bind fun here => (collectStep disk options root s here).toOption

/-- The loop comes to the state at the head of a round. -/
def Reached (disk : SourceDisk) (options : CollectOptions) (root : FsPath) (top : Place)
    (s : CollectState) : Prop :=
  Lts.Reach (collectNext disk options root) (collectStart disk options root top) s

theorem Inv.reached (hfollow : options.follow = true) (hroot : RootAt disk root top)
    {s : CollectState} (h : Reached disk options root top s) : Inv disk options root s := by
  refine h.invariant (.start hfollow hroot) ?_
  intro s s' _ hinv _ hnext
  obtain ⟨here, hhere, hstep⟩ := Option.bind_eq_some_iff.mp hnext
  obtain ⟨s₁, hok, hspec⟩ := hinv.round hfollow hroot hhere
  rw [hok] at hstep
  obtain rfl : s₁ = s' := by simpa [Except.toOption] using hstep
  exact hinv.step hroot hhere hspec

/-! ### What is returned -/

theorem Collected.names {walk : List String} (h : Collected disk options root walk) :
    walk ≠ [] ∧ Names walk := by
  cases h with
  | @intro inner x entry hopen hx _ _ _ =>
    refine ⟨by simp, fun y hy => ?_⟩
    rcases List.mem_append.mp hy with hy | hy
    · exact hopen.names y hy
    · obtain rfl := List.mem_singleton.mp hy
      exact isName_of_mem_children hx

/-- The relative name of what is collected of a walk. -/
def nameOf (disk : SourceDisk) (options : CollectOptions) (root : FsPath) (walk : List String) : String :=
  ((entryOf disk options root walk).map (·.relative)).getD ""

/-- What is collected has the name of its walk, a directory with a slash after it. -/
theorem nameOf_eq (hfollow : options.follow = true) : ∃ pre, ∀ walk,
    Collected disk options root walk →
      nameOf disk options root walk = "/".intercalate (pre ++ walk) ∨
        nameOf disk options root walk = "/".intercalate (pre ++ walk) ++ "/" := by
  obtain ⟨pre, hpre⟩ := relativeLexical_source disk root
  refine ⟨pre, fun walk hwalk => ?_⟩
  obtain ⟨hne, hnames⟩ := hwalk.names
  have hname := hpre walk hne hnames
  have hdescribe := @describe_follow disk options root walk hfollow
  have hmode : ¬ (options.symlinkMode = .preserve ∧ disk.isSymlink (entryPath root walk) = true) := by
    rw [follow_iff.mp hfollow]
    exact fun h => nomatch h.1
  rw [describe, if_neg hmode] at hdescribe
  unfold nameOf
  split at hdescribe
  next info hfile =>
    rw [← Except.ok.inj hdescribe]
    exact .inl hname
  next =>
    split at hdescribe
    · rw [← Except.ok.inj hdescribe]
      exact .inr (congrArg (· ++ "/") hname)
    · cases hwalk with
      | intro _ _ _ _ hentry =>
        rw [← Except.ok.inj hdescribe] at hentry
        cases hentry

/-- No two walks are given one name. -/
theorem nameOf_inj (hfollow : options.follow = true) {walk other : List String}
    (hwalk : Collected disk options root walk) (hother : Collected disk options root other)
    (h : nameOf disk options root walk = nameOf disk options root other) : walk = other := by
  obtain ⟨pre, hpre⟩ := @nameOf_eq disk options root hfollow
  obtain ⟨hne, hnames⟩ := hwalk.names
  obtain ⟨hne', hnames'⟩ := hother.names
  have hslash : ∀ text : String, (text ++ "/").toList.getLast? = some '/' := by
    intro text
    rw [String.toList_append]
    exact List.getLast?_concat
  rcases hpre walk hwalk with hplain | hdir <;> rcases hpre other hother with hplain' | hdir'
  · exact intercalate_inj hne hne' hnames hnames' (hplain.symm.trans (h.trans hplain'))
  · have htext := hplain.symm.trans (h.trans hdir')
    exact absurd (htext ▸ hslash _) (getLast?_intercalate hne hnames)
  · have htext := hplain'.symm.trans (h.symm.trans hdir)
    exact absurd (htext ▸ hslash _) (getLast?_intercalate hne' hnames')
  · have htext := congrArg String.toList (hdir.symm.trans (h.trans hdir'))
    rw [String.toList_append, String.toList_append] at htext
    exact intercalate_inj hne hne' hnames hnames'
      (String.toList_injective (List.append_cancel_right htext))

theorem nodup_relative (hfollow : options.follow = true) {walks : List (List String)}
    (hnodup : walks.Nodup) (hwalks : ∀ walk ∈ walks, Collected disk options root walk) :
    ((walks.filterMap (entryOf disk options root)).map (·.relative)).Nodup := by
  have hnames : (walks.filterMap (entryOf disk options root)).map (·.relative) =
      walks.map (nameOf disk options root) := by
    clear hnodup
    induction walks with
    | nil => rfl
    | cons walk rest ih =>
      have hsome : ∃ entry, entryOf disk options root walk = some entry := by
        cases hwalks walk List.mem_cons_self with
        | intro _ _ _ _ hentry => exact ⟨_, hentry⟩
      obtain ⟨entry, hentry⟩ := hsome
      rw [List.filterMap_cons_some hentry, List.map_cons, List.map_cons,
        ih fun w hw => hwalks w (List.mem_cons_of_mem walk hw), nameOf, hentry]
      rfl
  rw [hnames]
  refine List.Nodup.map_on ?_ hnodup
  intro walk hwalk other hother h
  exact nameOf_inj hfollow (hwalks walk hwalk) (hwalks other hother) h

theorem collectFiles_directory (hfollow : options.follow = true) (hroot : RootAt disk root top)
    (rounds : Nat) : collectFiles disk options root rounds =
      (collectLoop disk options root rounds (collectStart disk options root top)).map fun result =>
        result.map fun s =>
          if s.entries = [] then [directoryEntry disk root root.filename] else s.entries := by
  have hstatus : disk.status root = some .dir := by
    have hdir := hroot.dir
    rw [SourceDisk.status, hroot.canonical, Option.bind_some]
    unfold FileTree.isDir at hdir
    cases hlook : look disk.tree top with
    | none => simp [hlook] at hdir
    | some node => cases node <;> simp_all
  have hmode : ¬ (options.symlinkMode = .preserve ∧ disk.isSymlink root = true) := by
    rw [follow_iff.mp hfollow]
    exact fun h => nomatch h.1
  rw [collectFiles, if_neg hmode, hroot.canonical, hstatus]

/-- A source that is no directory is one entry, or is refused. -/
theorem collectFiles_other (hfollow : options.follow = true) (hroot : ∀ top, ¬ RootAt disk root top) :
    ∃ result, (∀ entries, result = .ok entries → (entries.map (·.relative)).Nodup) ∧
      ∀ rounds, collectFiles disk options root rounds = some result := by
  have hmode : ¬ (options.symlinkMode = .preserve ∧ disk.isSymlink root = true) := by
    rw [follow_iff.mp hfollow]
    exact fun h => nomatch h.1
  have hrefused : ∀ entries : List FileEntry, (.error ("not a file or directory: " ++ root.text) :
      Except KikoError (List FileEntry)) = .ok entries → (entries.map (·.relative)).Nodup :=
    fun _ h => nomatch h
  cases hcanonical : disk.canonical root with
  | none =>
    refine ⟨_, hrefused, fun rounds => ?_⟩
    rw [collectFiles, if_neg hmode, SourceDisk.status, hcanonical]
    rfl
  | some top =>
    cases hlook : look disk.tree top with
    | none =>
      refine ⟨_, hrefused, fun rounds => ?_⟩
      rw [collectFiles, if_neg hmode, SourceDisk.status, hcanonical, Option.bind_some, hlook]
    | some node =>
      cases node with
      | dir => exact absurd ⟨hcanonical, by simp [FileTree.isDir, hlook]⟩ (hroot top)
      | symlink target =>
        refine ⟨_, hrefused, fun rounds => ?_⟩
        rw [collectFiles, if_neg hmode, SourceDisk.status, hcanonical, Option.bind_some, hlook]
      | file info =>
        refine ⟨.ok [fileEntry disk root root.filename info], ?_, fun rounds => ?_⟩
        · intro entries h
          obtain rfl := Except.ok.inj h
          exact List.nodup_singleton _
        · rw [collectFiles, if_neg hmode, SourceDisk.status, hcanonical, Option.bind_some, hlook]

/-- A source directory is collected in the end: what `Collected` says, each walk once. -/
theorem collectFiles_ends (hfollow : options.follow = true) (hroot : RootAt disk root top) :
    ∃ walks enough, walks.Nodup ∧ (∀ walk, walk ∈ walks ↔ Collected disk options root walk) ∧
      ∀ rounds, enough ≤ rounds → collectFiles disk options root rounds =
        some (.ok (if walks = [] then [directoryEntry disk root root.filename]
          else walks.filterMap (entryOf disk options root))) := by
  obtain ⟨places, hplaces⟩ := disk.finite
  obtain ⟨s, hinv, hend, hrun⟩ := collectLoop_ends hfollow hroot hplaces _ (Inv.start hfollow hroot) le_rfl
  obtain ⟨walks, hentries, hnodup, hsound, hcomplete⟩ := hinv.collected
  have hall : ∀ walk, Collected disk options root walk → walk ∈ walks := by
    intro walk hwalk
    refine (hcomplete walk hwalk).resolve_right ?_
    rw [hend]
    exact Preorder.not_ahead_nil
  refine ⟨walks, Preorder.weight places.length places.length (collectStart disk options root top).position,
    hnodup, fun walk => ⟨fun h => (hsound walk h).1, hall walk⟩, fun rounds hrounds => ?_⟩
  rw [collectFiles_directory hfollow hroot, hrun rounds hrounds]
  have hempty : s.entries = [] ↔ walks = [] := by
    rw [hentries]
    constructor
    · intro hnone
      by_contra hne
      obtain ⟨walk, rest, rfl⟩ := List.exists_cons_of_ne_nil hne
      cases (hsound walk List.mem_cons_self).1 with
      | intro _ _ _ _ hentry => simp [hentry] at hnone
    · rintro rfl
      rfl
  show some (Except.ok (if s.entries = [] then _ else s.entries)) = _
  by_cases hnone : walks = []
  · rw [if_pos hnone, if_pos (hempty.mpr hnone)]
  · rw [if_neg hnone, if_neg (fun h => hnone (hempty.mp h)), hentries]

/-- Whatever the number of rounds it took, what is returned for a directory is the same. -/
theorem collectFiles_unique (hfollow : options.follow = true) (hroot : RootAt disk root top)
    {rounds : Nat} {result : Except KikoError (List FileEntry)}
    (h : collectFiles disk options root rounds = some result) :
    ∃ walks, walks.Nodup ∧ (∀ walk, walk ∈ walks ↔ Collected disk options root walk) ∧
      result = .ok (if walks = [] then [directoryEntry disk root root.filename]
        else walks.filterMap (entryOf disk options root)) := by
  obtain ⟨walks, enough, hnodup, hmem, hends⟩ := collectFiles_ends hfollow hroot
  refine ⟨walks, hnodup, hmem, ?_⟩
  have hmore := hends (max rounds enough) (le_max_right _ _)
  rw [collectFiles_directory hfollow hroot] at h hmore
  obtain ⟨run, hrun, hresult⟩ := Option.map_eq_some_iff.mp h
  rw [collectLoop_mono (le_max_left rounds enough) hrun, Option.map_some, hresult] at hmore
  exact Option.some.inj hmore

/-- **Collecting ends, and is faithful, where links to directories are followed.** In every round
    the list of ancestors is the canonical directories on the walk, none of them twice; a directory
    is gone into unless it is one of them or an ignore file on the walk excludes it, and nothing
    that was come to on another walk counts. What is returned is what `Collected` says, each walk
    once, and no name twice. -/
theorem follow_collects (disk : SourceDisk) (options : CollectOptions) (root : FsPath)
    (hfollow : options.symlinkMode = .follow) :
    (∃ result enough, ∀ rounds, enough ≤ rounds →
        collectFiles disk options root rounds = some result) ∧
      (∀ rounds entries, collectFiles disk options root rounds = some (.ok entries) →
        (entries.map (·.relative)).Nodup) ∧
      ∀ top, RootAt disk root top →
        (∀ s here, Reached disk options root top s → Preorder.current s.position = some here →
          trimmed options s = directoriesOn disk root here.dropLast ∧
          (directoriesOn disk root here.dropLast).Nodup ∧
          ∃ s' recurse, collectStep disk options root s here = .ok s' ∧
            s'.position = Preorder.advance (children disk root) recurse s.position ∧
            (recurse = true ↔ ∃ place, disk.canonical (entryPath root here) = some place ∧
              isDir disk.tree place = true ∧ place ∉ directoriesOn disk root here.dropLast ∧
              ¬ Excluded disk options root here)) ∧
        ∀ rounds entries, collectFiles disk options root rounds = some (.ok entries) →
          ∃ walks, walks.Nodup ∧ (∀ walk, walk ∈ walks ↔ Collected disk options root walk) ∧
            entries = if walks = [] then [directoryEntry disk root root.filename]
              else walks.filterMap (entryOf disk options root) := by
  have hfollow := follow_iff.mpr hfollow
  refine ⟨?ends, ?names, fun top hroot => ⟨?rounds, ?returned⟩⟩
  -- with a root the measure goes down in every round; without one there is no round
  case ends =>
    by_cases hroot : ∃ top, RootAt disk root top
    · obtain ⟨top, hroot⟩ := hroot
      obtain ⟨walks, enough, -, -, hends⟩ := @collectFiles_ends disk options root top hfollow hroot
      exact ⟨_, enough, hends⟩
    · obtain ⟨result, -, hends⟩ := @collectFiles_other disk options root hfollow (not_exists.mp hroot)
      exact ⟨result, 0, fun rounds _ => hends rounds⟩
  case names =>
    intro rounds entries hentries
    by_cases hroot : ∃ top, RootAt disk root top
    · obtain ⟨top, hroot⟩ := hroot
      obtain ⟨walks, hnodup, hmem, heq⟩ := collectFiles_unique hfollow hroot hentries
      obtain rfl := Except.ok.inj heq
      split
      · exact List.nodup_singleton _
      · exact nodup_relative hfollow hnodup fun walk hwalk => (hmem walk).mp hwalk
    · obtain ⟨result, hnodup, hends⟩ := @collectFiles_other disk options root hfollow (not_exists.mp hroot)
      exact hnodup entries (Option.some.inj ((hends rounds).symm.trans hentries))
  -- each round is the one of the entry the iterator stands at
  case rounds =>
    intro s here hreached hhere
    have hinv := Inv.reached hfollow hroot hreached
    obtain ⟨s', hstep, hspec⟩ := hinv.round hfollow hroot hhere
    obtain ⟨recurse, hrecurse, hposition⟩ := hspec.position
    obtain ⟨walk, x, left, below, -, hhereEq, -, hopen, -⟩ := hinv.standing hhere
    refine ⟨hinv.trimmed hfollow hhere, ?_, s', recurse, hstep, hposition, ?_⟩
    · rw [hhereEq, List.dropLast_concat]
      exact (hopen.nodup hroot).1
    · rw [hrecurse]
      constructor
      · rintro ⟨hdir, hcut, hexcluded⟩
        obtain ⟨place, hplace, hisDir⟩ := isDirectory_iff.mp hdir
        exact ⟨place, hplace, hisDir, fun hmem => hcut ((cut_iff hplace hisDir).mpr hmem), hexcluded⟩
      · rintro ⟨place, hplace, hisDir, hmem, hexcluded⟩
        exact ⟨isDirectory_iff.mpr ⟨place, hplace, hisDir⟩,
          fun hcut => hmem ((cut_iff hplace hisDir).mp hcut), hexcluded⟩
  -- at the end nothing is ahead any more, so what was collected is all there is
  case returned =>
    intro rounds entries hentries
    obtain ⟨walks, hnodup, hmem, heq⟩ := collectFiles_unique hfollow hroot hentries
    exact ⟨walks, hnodup, hmem, Except.ok.inj heq⟩

end Run

/-! ## A disk with cycles -/

/-- A disk given by its entries. -/
def diskOf (nodes : List (Place × Node FileInfo))
    (h : ∀ entry ∈ nodes, ∀ name ∈ entry.1.getLast?, FsPath.isName name = true ∧ '/' ∉ name.toList) :
    SourceDisk where
  tree place := nodes.lookup place
  cwd := []
  listing place := (nodes.filterMap fun entry =>
    if entry.1.dropLast = place then entry.1.getLast? else none).dedup
  mtimeMs _ := 0
  mode _ := 0
  mem_listing := by
    intro place name hname
    obtain ⟨entry, hentry, hlast⟩ := List.mem_filterMap.mp (List.mem_dedup.mp hname)
    by_cases hplace : entry.1.dropLast = place
    · rw [if_pos hplace] at hlast
      have hsplit := List.dropLast_append_getLast? name hlast
      rw [hplace] at hsplit
      rw [hsplit, List.lookup_isSome_iff]
      exact ⟨entry, hentry, by simp⟩
    · rw [if_neg hplace] at hlast
      cases hlast
  nodup _ := List.nodup_dedup _
  names := by
    intro place name hname
    obtain ⟨entry, hentry, hlast⟩ := List.mem_filterMap.mp (List.mem_dedup.mp hname)
    by_cases hplace : entry.1.dropLast = place
    · rw [if_pos hplace] at hlast
      exact h entry hentry name hlast
    · rw [if_neg hplace] at hlast
      cases hlast
  finite := by
    refine ⟨nodes.map (·.1), fun place hplace => ?_⟩
    obtain ⟨entry, hentry, heq⟩ := (List.lookup_isSome_iff).mp hplace
    exact List.mem_map.mpr ⟨entry, hentry, (eq_of_beq heq).symm⟩

/-- A directory with a link to itself, one with a link to the directory around it, and a link to
    the directory beside it. -/
def cyclicDisk : SourceDisk := diskOf
  [(["src"], .dir), (["src", "data"], .file ⟨5, "d", []⟩), (["src", "loop"], .symlink "."),
    (["src", "sub"], .dir), (["src", "sub", "x"], .file ⟨1, "x", []⟩),
    (["src", "sub", "up"], .symlink ".."), (["src", "again"], .symlink "sub")] (by decide)

def cyclicSource : FsPath := { isAbsolute := true, parts := ["src"] }

/-- The cycles are cut, and the directory beside is collected once on each way to it. -/
theorem follow_collects_cyclic :
    (∃ result enough, ∀ rounds, enough ≤ rounds →
        collectFiles cyclicDisk {} cyclicSource rounds = some result) ∧
      ∃ walks : List (List String), walks.Nodup ∧
        (∀ walk, walk ∈ walks ↔ Collected cyclicDisk {} cyclicSource walk) ∧
        (if walks = [] then [directoryEntry cyclicDisk cyclicSource "src"]
          else walks.filterMap (entryOf cyclicDisk {} cyclicSource)).map (·.relative) =
          ["src/data", "src/sub/x", "src/again/x"] := by
  have hroot : RootAt cyclicDisk cyclicSource ["src"] := ⟨by decide +kernel, by decide +kernel⟩
  have hrun : collectFiles cyclicDisk {} cyclicSource 9 = some (.ok
      [{ absolute := "/src/data", relative := "src/data", size := 5, imohash := "d" },
        { absolute := "/src/sub/x", relative := "src/sub/x", size := 1, imohash := "x" },
        { absolute := "/src/again/x", relative := "src/again/x", size := 1, imohash := "x" }]) := by
    decide +kernel
  obtain ⟨hends, -, hfaithful⟩ := follow_collects cyclicDisk {} cyclicSource rfl
  obtain ⟨walks, hnodup, hmem, hentries⟩ := (hfaithful ["src"] hroot).2 9 _ hrun
  refine ⟨hends, walks, hnodup, hmem, ?_⟩
  exact (congrArg (List.map (·.relative)) hentries).symm

end Kiko.Transfer.FollowLinks
