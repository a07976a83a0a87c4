import Kiko.Transfer.ConflictPolicy

/-!
# The receiver stays in its output directory

Every path is checked before it is used, but by its lexical normal form, and it is used as it is
spelled. So the receiver stays below the output directory as long as that directory, as it is
spelled, is where its normal form leads (`contained`). Where `..` comes after a link the two are
different directories, the links below the one that is used are not looked at, and a single file
can go anywhere (`receiver_escapes`).

The checks are lexical, so they can be right about the path and wrong about the place. The
condition `Agrees` is the difference between the two and nothing more: it says of the output
directory that it leads to the root under either reading, and it says nothing about what the
peer sends. It is asked in every step, since the tree changes, and a directory that is replaced
by a link under way is as bad as one that was a link before.
-/

set_option autoImplicit false

namespace Kiko.Transfer

open Lexical FileTree FsPath Effect

theorem Inside.since {root : Place} {d d' : Disk} (h : Inside root d d') : ∀ p ∈ d.since d', root <+: p := by
  obtain ⟨new, htouched, hroot⟩ := h
  rw [Disk.since, htouched, List.drop_left]
  exact hroot

/-- Whatever a step does, it does below `root`. -/
theorem Intake.Does.inside {env : ReceiveEnv} {root : Place} {s s' : Intake} {f : Option Frame}
    (h : s.Does env root f s') : Inside root s.disk s'.disk := by
  rcases h with ⟨⟨new, hacts⟩, -⟩ | ⟨setup, rel, hends⟩
  · exact ⟨new, hacts.touched, hacts.inside⟩
  · obtain ⟨new, hacts⟩ := hends.acting
    exact ⟨new, hacts.touched, hacts.inside⟩

/-- **Containment.** Where in every step the output directory as it is spelled is at `root`, and its
    normal form leads there too, all that either loop has made, written, renamed, removed or given
    metadata is at `root` or below it, whatever is sent to it and wherever it stops. -/
theorem contained (env : ReceiveEnv) (root : Place) (d : Disk) (s : Intake) (hsane : Sane d.tree)
    (hr : ReceivedUnder env (fun s _ => Agrees env s.disk.tree root) (fun _ _ _ _ => ()) () d s ()) :
    ∀ p ∈ d.since s.disk, root <+: p := by
  have h : s.Placed env root ∧ Inside root d s.disk := by
    refine hr.invariant (I := fun s _ => s.Placed env root ∧ Inside root d s.disk) ?_ ?_
    · exact ⟨⟨hsane, nofun, trivial⟩, .refl root d⟩
    · intro s _ f s' hsound _ ⟨hplaced, hinside⟩ hagree hstep
      obtain ⟨hplaced', hdoes⟩ := hplaced.step hagree hsound hstep
      exact ⟨hplaced', hinside.trans hdoes.inside⟩
  exact h.2.since

instance Agrees.decidable (env : ReceiveEnv) (t : Tree) (root : Place) : Decidable (Agrees env t root) :=
  decidable_of_iff
    (look t (origin env.cwd env.outputDir) = some .dir ∧ resolve t env.cwd env.outputDir = some root ∧
      ((env.outputDir.absolute env.cwd).any fun q => walk t maxLinks [] q.normalNames = some root) = true)
    ⟨fun ⟨hhere, hspelled, hnormal⟩ =>
        ⟨hhere, hspelled, by simpa using (Option.any_eq_true _ _).mp hnormal⟩,
      fun ⟨hhere, hspelled, hnormal⟩ =>
        ⟨hhere, hspelled, (Option.any_eq_true _ _).mpr (by simpa using hnormal)⟩⟩

/-- A file is replaced, by way of its partial file. -/
theorem contained_sample : ∃ s, ReceivedUnder sampleEnv (fun s _ => Agrees sampleEnv s.disk.tree ["out"])
      (fun _ _ _ _ => ()) () hiDisk s () ∧
    ["out", "hi.txt"] ∈ hiDisk.since s.disk ∧ ∀ p ∈ hiDisk.since s.disk, ["out"] <+: p := by
  obtain ⟨⟨r, ⟨⟩⟩, hr, hlast⟩ := Lts.ReachUnder.exists_of_run
    (track (StreamRecv.next sampleEnv) (fun _ input => StreamInput.seen input)
      (@StreamRecv.intake storedStream) (fun _ _ _ _ => ()))
    (fun s _ => Agrees sampleEnv s.1.intake.disk.tree ["out"])
    ({ loop := { disk := hiDisk } }, ()) ((hiWhole "hi.txt" ++ [Frame.done]).map .frame)
    (fun s => ["out", "hi.txt"] ∈ hiDisk.since s.1.intake.disk) (by decide +kernel) (by decide +kernel)
  simp only [decide_eq_true_eq] at hlast
  exact ⟨_, .stream hr, hlast, contained sampleEnv ["out"] hiDisk _ hiDisk_sane (.stream hr)⟩

/-- `/link` leads to `/a/sub`, and `/a/out/s` to `/etc`. -/
def linkedDisk : Disk where
  tree place :=
    if place = ["a"] ∨ place = ["a", "out"] ∨ place = ["a", "sub"] ∨ place = ["etc"] then some .dir
    else if place = ["link"] then some (.symlink "a/sub")
    else if place = ["a", "out", "s"] then some (.symlink "/etc")
    else none

/-- Files are received into `/link/../out`, which is `/a/out`. -/
def linkedEnv : ReceiveEnv := { sampleEnv with outputDir := .ofString "/link/../out" }

/-- `s/x` is received into `/etc`: the directory that is looked at on the way to it is `/out/s`,
    where there is nothing. -/
theorem receiver_escapes : resolve linkedDisk.tree linkedEnv.cwd linkedEnv.outputDir = some ["a", "out"] ∧
    ∃ s h, Received linkedEnv linkedDisk s h ∧ ["etc", "x.kikopart"] ∈ linkedDisk.since s.disk ∧
      s.disk.tree ["etc", "x"] = some (.file [104, 105, 33]) ∧
      ¬ ∀ p ∈ linkedDisk.since s.disk, ["a", "out"] <+: p := by
  obtain ⟨⟨r, h⟩, hr, hlast⟩ := Lts.Reach.exists_of_run
    (watch linkedEnv (StreamRecv.next linkedEnv) (fun _ input => StreamInput.seen input)
      (@StreamRecv.intake storedStream))
    ({ loop := { disk := linkedDisk } }, {}) ((hiWhole "s/x" ++ [Frame.done]).map .frame)
    (fun s => ["etc", "x.kikopart"] ∈ linkedDisk.since s.1.intake.disk ∧
      s.1.intake.disk.tree ["etc", "x"] = some (.file [104, 105, 33]))
    (by decide +kernel)
  simp only [decide_eq_true_eq] at hlast
  obtain ⟨hout, hfile⟩ := hlast
  refine ⟨by decide, _, h, .stream hr, hout, hfile, fun hin => ?_⟩
  exact absurd (hin _ hout) (by decide)

end Kiko.Transfer
