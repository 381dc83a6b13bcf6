/-
Making and unmaking.

A verb that makes an entry and the one that removes it look at the operand in different ways before
they act: `mkdir` wants nothing to be where the path leads and `rmdir` an empty directory there,
`touch` asks for nothing and `rm` about the entry.  Behind `mkdir` and `touch` these questions have
one answer, and the calls that follow undo each other
(`FileSystem.removeDirectory_of_makeDirectory`, `FileSystem.removeFile_of_touch`), so the second
verb of a pair succeeds whenever the first one has.
-/
import LineShell.Proofs.Files.Undone
import LineShell.Proofs.Verbs.Directories

set_option autoImplicit false

namespace LineShell

open LineShell.Text

namespace SinglePath

variable {w u : World} {operand line : String} {files : FileSystem}

/-- A verb that has changed the files leaves an output that takes everything. -/
theorem takes_committed (htakes : w.Takes) : World.Takes { w.told line with files := files } :=
  ⟨(htakes.hear _).fileless, htakes.room⟩

/-! ## Making -/

theorem exists_of_committed {failure : IoError → Failure} {result : Except IoError FileSystem}
    (h : committed w line failure result = (.done 0, u)) :
    ∃ files, result = .ok files ∧ u = { w.told line with files := files } := by
  cases result with
  | error e => exact nomatch h
  | ok files =>
    injection h with _ hworld
    exact ⟨files, rfl, hworld.symm⟩

/-- A `mkdir` that ends well has made its directory. -/
theorem makeDirectory_of_done (htakes : w.Takes)
    (h : (Verbs.makeDirectory operand).run w = (.done 0, u)) :
    ∃ files, w.files.makeDirectory (w.env.locate operand) = .ok files
      ∧ u = { w.told ("Directory created: " ++ operand) with files := files } := by
  rw [Verbs.makeDirectory, Action.run_bind, Action.run_locate] at h
  simp only at h
  rw [Action.run_bind, Action.run_isThere] at h
  cases hthere : (w.files.status (w.env.locate operand)).isOk with
  | true =>
    rw [hthere] at h
    cases h
  | false =>
    rw [hthere] at h
    exact exists_of_committed ((run_commit htakes rfl).symm.trans h)

/-- A `touch` that ends well has touched its file. -/
theorem touchFile_of_done (htakes : w.Takes)
    (h : (Verbs.touchFile operand).run w = (.done 0, u)) :
    ∃ files, w.files.touch (w.env.locate operand) = .ok files
      ∧ u = { w.told ("File created/updated: " ++ operand) with files := files } := by
  rw [Verbs.touchFile, Action.run_bind, Action.run_locate] at h
  exact exists_of_committed ((run_commit htakes rfl).symm.trans h)

/-! ## Unmaking -/

/-- An empty directory that can be removed is removed. -/
theorem run_removeDirectory_of_empty {l : Location} (htakes : w.Takes)
    (hleads : w.files.resolve (w.env.locate operand) = .ok (l, .directory))
    (hempty : w.files.names l = [])
    (hremoves : w.files.removeDirectory (w.env.locate operand) = .ok files) :
    (Verbs.removeDirectory operand).run w
      = (.done 0, { w.told ("Directory removed: " ++ operand) with files := files }) := by
  rw [Verbs.removeDirectory, Action.run_bind, Action.run_locate]
  simp only
  rw [Action.run_bind, Action.run_isDirectory, FileSystem.isDirectory_iff.mpr ⟨l, hleads⟩]
  simp only [if_true]
  rw [Action.run_bind, Verbs.run_list hleads, hempty]
  refine Eq.trans (run_commit htakes rfl) ?_
  rw [hremoves]
  rfl

/-- A file that can be removed is removed. -/
theorem run_removeFile_of_regular (htakes : w.Takes)
    (hentry : w.files.entryStatus (w.env.locate operand) = .ok .regular)
    (hremoves : w.files.removeFile (w.env.locate operand) = .ok files) :
    (Verbs.removeFile operand).run w
      = (.done 0, { w.told ("File removed: " ++ operand) with files := files }) := by
  have hstatus : w.answer (.files (.entryStatus (w.env.locate operand)))
      = (w.files.entryStatus (w.env.locate operand), w) := rfl
  rw [Verbs.removeFile, Action.run_bind, Action.run_locate]
  simp only
  rw [Action.run_bind, Action.call, Action.run_ask, hstatus, hentry]
  refine Eq.trans (run_commit htakes rfl) ?_
  rw [hremoves]
  rfl

/-! ## One after the other -/

/-- **What is made can be unmade.**  Where everything is taken, `rmdir` succeeds right behind a
`mkdir` that has succeeded, and `rm` behind a `touch` that has succeeded where there was no entry.
The files are then those of before; only the contents of the file that was created are still in the
table, where no entry names them, so that the tree is the same. -/
theorem made_then_unmade {w : World} {operand : String} {words others later later' : List String}
    (hsound : w.files.Sound) (htakes : w.Takes) (hwords : Lists words (operand :: later))
    (hothers : Lists others (operand :: later')) :
    (∀ u, (Verbs.mkdir.handler ("mkdir" :: words)).run w = (.done 0, u) →
        ∃ v, (Verbs.rmdir.handler ("rmdir" :: others)).run u = (.done 0, v)
          ∧ v.files = w.files ∧ v.env = w.env)
      ∧ ∀ u, (w.files.entryStatus (w.env.locate operand)).isOk = false →
        (Verbs.touch.handler ("touch" :: words)).run w = (.done 0, u) →
        ∃ v, (Verbs.rm.handler ("rm" :: others)).run u = (.done 0, v)
          ∧ w.files.SameTree v.files ∧ (∀ l, v.files.seenAt l = w.files.seenAt l)
          ∧ v.env = w.env := by
  have hdone : (0 : Int) ≠ 1 := by decide
  constructor
  · intro u hrun
    rw [Builtin.handler_of_lists rfl hwords] at hrun
    obtain ⟨files, hmade, rfl⟩ :=
      makeDirectory_of_done htakes (Builtin.run_of_run_reporting hrun hdone)
    obtain ⟨⟨l, hleads, hempty⟩, hremoves⟩ :=
      FileSystem.removeDirectory_of_makeDirectory hsound hmade
    rw [Builtin.handler_of_lists rfl hothers]
    exact ⟨_, Builtin.run_reporting_of_done
      (run_removeDirectory_of_empty (takes_committed htakes) hleads hempty hremoves), rfl, rfl⟩
  · intro u hnone hrun
    rw [Builtin.handler_of_lists rfl hwords] at hrun
    obtain ⟨files, htouched, rfl⟩ :=
      touchFile_of_done htakes (Builtin.run_of_run_reporting hrun hdone)
    obtain ⟨hentry, last, hremoves, hsame⟩ :=
      FileSystem.removeFile_of_touch hsound hnone htouched
    rw [Builtin.handler_of_lists rfl hothers]
    exact ⟨_, Builtin.run_reporting_of_done
      (run_removeFile_of_regular (takes_committed htakes) hentry hremoves), hsame,
      hsame.seenAt_eq hsound.numbered, rfl⟩

/-- A world with a directory and a link to it. -/
def linked : World :=
  { Session.quiet.world with
    files := .ofSeeds (.fresh (encode "r") [])
      [.directory (Path.ofString "/r/d"), .link (Path.ofString "/r/l") (Path.ofString "d")] }

/-- A directory with a slash behind its name and a file, both made through a link. -/
theorem made_then_unmade_linked :
    (∃ u v, (Verbs.mkdir.handler ["mkdir", "l/e/"]).run linked = (.done 0, u)
        ∧ u.files.node? [encode "e", encode "d", encode "r"] = some .directory
        ∧ (Verbs.rmdir.handler ["rmdir", "l/e/"]).run u = (.done 0, v) ∧ v.files = linked.files)
      ∧ ∃ u v, (Verbs.touch.handler ["touch", "l/./f"]).run linked = (.done 0, u)
        ∧ u.files.seenAt [encode "f", encode "d", encode "r"] = some (.file [] true)
        ∧ (Verbs.rm.handler ["rm", "l/./f"]).run u = (.done 0, v)
        ∧ ∀ l, v.files.seenAt l = linked.files.seenAt l := by
  have hsound : linked.files.Sound :=
    FileSystem.sound_ofSeeds (FileSystem.sound_fresh (by decide +kernel)) _
  have htakes : linked.Takes := ⟨nofun, rfl⟩
  have hdirectory : Lists ["l/e/"] ["l/e/"] := ⟨by decide, by decide⟩
  have hfile : Lists ["l/./f"] ["l/./f"] := ⟨by decide, by decide⟩
  obtain ⟨hmkdir, -⟩ := made_then_unmade hsound htakes hdirectory hdirectory
  obtain ⟨-, htouch⟩ := made_then_unmade hsound htakes hfile hfile
  constructor
  · have hmade : (Verbs.mkdir.handler ["mkdir", "l/e/"]).run linked
        = (.done 0, ((Verbs.mkdir.handler ["mkdir", "l/e/"]).run linked).2) :=
      Prod.ext (by decide +kernel) rfl
    obtain ⟨v, hremoved, hfiles, -⟩ := hmkdir _ hmade
    exact ⟨_, v, hmade, by decide +kernel, hremoved, hfiles⟩
  · have hmade : (Verbs.touch.handler ["touch", "l/./f"]).run linked
        = (.done 0, ((Verbs.touch.handler ["touch", "l/./f"]).run linked).2) :=
      Prod.ext (by decide +kernel) rfl
    obtain ⟨v, hremoved, -, hseen, -⟩ := htouch _ (by decide +kernel) hmade
    exact ⟨_, v, hmade, by decide +kernel, hremoved, hseen⟩

end SinglePath

end LineShell
