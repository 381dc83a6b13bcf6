/-
A redirection loses nothing silently.

What a redirected command prints may get stuck in three places: the command is told that a print has
failed, the flush behind the command fails, or both.  A command that is told gives up or
complains, and its status is 1; a flush that fails makes the status 1 whatever the command
said.  So with the status 0 no print was refused and the flush went well, and then the balance of
the sink says that everything has reached the file or device, in order.

The argument does not ask what stands behind the target.  It holds for a device that takes parts of
what it is given at some times and nothing at others.
-/
import LineShell.Proofs.Session.Failures
import LineShell.Proofs.Stream.Delivery

set_option autoImplicit false

namespace LineShell

open LineShell.Text

namespace Session

variable {table : VerbTable} {line command target : String} {mode : Redirection} {handle : Handle}
  {files : FileSystem} {s : Session} {id : FileId}

/-- The bytes of a command that reach the file or device behind its output, those of the flush
behind the command included. -/
def reached (table : VerbTable) (command : String) (w : World) : Bytes :=
  (program table command).delivered w ++
    match ((program table command).run w).2.output with
    | .file sink => sink.flushed
    | _ => []

/-- The bytes that are still held behind that flush. -/
def stranded (table : VerbTable) (command : String) (w : World) : Bytes :=
  match ((program table command).run w).2.output with
  | .file sink => (sink.flush ((program table command).run w).2.files).2.1.held
  | _ => []

/-- A redirected line ends with 0, and then the command had no trouble and the flush went well, or
with 1. -/
theorem executeLine_opened_cases
    (hline : Line.parse line = .ok (.redirect command target mode))
    (hopen : s.world.files.openTarget (s.world.env.locate target) mode = .ok (handle, files)) :
    (executeLine .standard line s).1 = .returned
      ∧ ((executeLine .standard line s).2.status = 1
        ∨ (executeLine .standard line s).2.status = 0
          ∧ (program .standard command).Untroubled (s.world.redirected handle files)
          ∧ ∀ sink, ((program .standard command).run
              (s.world.redirected handle files)).2.output = .file sink →
            (sink.flush ((program .standard command).run
              (s.world.redirected handle files)).2.files).1 = .ok ()) := by
  obtain ⟨hreturned, hcases⟩ := @dispatch_standard_cases
    ⟨s.world.redirected handle files, 0⟩ command (.inl rfl)
  have hworld := (@dispatch_eq_run .standard command ⟨s.world.redirected handle files, 0⟩).2
  rw [executeLine_of_opened hline hopen, ← hworld]
  generalize dispatch .standard command ⟨s.world.redirected handle files, 0⟩ = ran
    at hreturned hcases ⊢
  rcases ran with ⟨ending, after⟩
  simp only at hreturned hcases ⊢
  subst hreturned
  obtain ⟨-, hstatus⟩ := flushOutput_errors after
  have hflush : ∀ sink, after.world.output = .file sink →
      after.flushOutput.1 = (sink.flush after.world.files).1 := by
    intro sink hsink
    rw [flushOutput, hsink]
  generalize after.flushOutput = flushed at hstatus hflush ⊢
  rcases flushed with ⟨e | _, settled⟩
  · -- the report about the flush decides the status
    exact ⟨rfl, .inl rfl⟩
  · refine ⟨rfl, ?_⟩
    rcases hcases with ⟨hzero, hclean⟩ | ⟨hone, -⟩
    · exact .inr ⟨hstatus.trans hzero, hclean, fun sink hsink => (hflush sink hsink).symm⟩
    · exact .inl (hstatus.trans hone)

/-- Where no print was refused and the flush goes well, everything that was printed has reached the
file. -/
theorem reached_of_clean {w : World} (hout : w.output = .file ⟨handle, []⟩)
    (hclean : (program table command).refused w = [])
    (hflush : ∀ sink, ((program table command).run w).2.output = .file sink →
      (sink.flush ((program table command).run w).2.files).1 = .ok ()) :
    reached table command w = (program table command).offered w
      ∧ stranded table command w = [] := by
  obtain ⟨sink, houtput, hbalance⟩ := (program table command).run_delivered hout hclean
  have hheld := FileSink.held_of_flush_ok (hflush sink houtput)
  have hflushed := sink.flushed_append ((program table command).run w).2.files
  rw [hheld, List.append_nil] at hflushed
  rw [← hflushed] at hbalance
  rw [reached, stranded, houtput]
  exact ⟨hbalance, hheld⟩

/-- A regular file holds what has reached it behind what the redirection left there. -/
theorem content_of_reached (hline : Line.parse line = .ok (.redirect command target mode))
    (hopen : s.world.files.openTarget (s.world.env.locate target) mode = .ok (handle, files))
    (hid : handle.file? = some id) (hsound : s.world.files.Sound)
    (hasks : (program table command).Asks Request.KeepsContents) :
    ((executeLine table line s).2.world.files.data id).content
      = s.world.files.keptBy mode id
        ++ reached table command (s.world.redirected handle files) := by
  obtain ⟨hwrites, howed⟩ := World.redirected_writesTo hsound hopen hid
  obtain ⟨hafter, hprinted⟩ := Action.run_of_writesTo hasks hwrites
  have hclean := Action.refused_of_writesTo hasks hwrites
  have hworld := (@dispatch_eq_run table command ⟨s.world.redirected handle files, 0⟩).2
  have hsettled : (dispatch table command
      ⟨s.world.redirected handle files, 0⟩).2.world.WritesTo id := by
    rw [hworld]
    exact hafter
  have hflush := flushOutput_ok_of_writesTo hsettled
  obtain ⟨hreached, -⟩ := @reached_of_clean table command handle _ rfl hclean fun sink hsink => by
    rw [← hworld] at hsink ⊢
    rwa [flushOutput, hsink] at hflush
  rw [executeLine_of_flushed hline hopen hflush]
  show ((dispatch table command
    ⟨s.world.redirected handle files, 0⟩).2.flushOutput.2.world.files.data id).content = _
  rw [flushOutput_of_writesTo hsettled, hworld, hprinted, howed, hreached,
    (program table command).printed_eq_offered hclean]

/-- Whatever stands behind the target of a redirection, and however its writes fail: if the line
ends with 0, all that the command has printed has reached the opened file or device, in order, and
nothing is left in the buffer. Otherwise the status is 1, with a message on an error stream that
takes it. In a regular file to which the command does not write by itself, what has reached it
stands behind what the redirection left there. -/
theorem redirect_delivers (hline : Line.parse line = .ok (.redirect command target mode))
    (hopen : s.world.files.openTarget (s.world.env.locate target) mode = .ok (handle, files)) :
    (executeLine .standard line s).1 = .returned
      ∧ ((executeLine .standard line s).2.status = 0 →
          reached .standard command (s.world.redirected handle files)
              = (program .standard command).offered (s.world.redirected handle files)
            ∧ stranded .standard command (s.world.redirected handle files) = [])
      ∧ (reached .standard command (s.world.redirected handle files)
            ≠ (program .standard command).offered (s.world.redirected handle files)
          ∨ stranded .standard command (s.world.redirected handle files) ≠ [] →
          (executeLine .standard line s).2.status = 1
            ∧ (s.world.errors.room = none →
              s.world.Complains (executeLine .standard line s).2.world))
      ∧ (∀ id, handle.file? = some id → s.world.files.Sound →
          (program .standard command).Asks Request.KeepsContents →
          ((executeLine .standard line s).2.world.files.data id).content
            = s.world.files.keptBy mode id
              ++ reached .standard command (s.world.redirected handle files)) := by
  obtain ⟨hreturned, hstatus⟩ := executeLine_opened_cases hline hopen
  have hall : (executeLine .standard line s).2.status = 0 →
      reached .standard command (s.world.redirected handle files)
          = (program .standard command).offered (s.world.redirected handle files)
        ∧ stranded .standard command (s.world.redirected handle files) = [] := by
    intro hzero
    obtain ⟨-, ⟨hrefused, -⟩, hflush⟩ :=
      hstatus.resolve_left (by rw [hzero]; decide)
    exact reached_of_clean rfl hrefused hflush
  refine ⟨hreturned, hall, fun hlost => ?_,
    fun id hid hsound hasks => content_of_reached hline hopen hid hsound hasks⟩
  have hone : (executeLine .standard line s).2.status = 1 := by
    refine hstatus.resolve_right fun ⟨hzero, _⟩ => ?_
    obtain ⟨hreached, hstranded⟩ := hall hzero
    exact hlost.elim (absurd hreached) (absurd hstranded)
  refine ⟨hone, fun hroom => execute_complains hroom ?_⟩
  show (executeLine .standard line s).2.status ≠ 0
  rw [hone]
  decide

/-- A session in a directory with a device that takes two bytes and no more. -/
def choking : Session :=
  { quiet with world := { quiet.world with files :=
      { entries := [([encode "r"], .directory),
          ([encode "d", encode "r"], .device (.fitful [2]))]
        files := []
        volumes := []
        base := [encode "r"] } } }

/-- Of the current directory two bytes reach the device, and the newline does not. -/
theorem redirect_delivers_choking :
    Line.parse "pwd > d" = .ok (.redirect "pwd" "d" .overwrite)
      ∧ choking.world.files.openTarget (choking.world.env.locate "d") .overwrite
        = .ok (.device (.fitful [2]), choking.world.files)
      ∧ reached .standard "pwd"
          (choking.world.redirected (.device (.fitful [2])) choking.world.files) = encode "/r"
      ∧ (executeLine .standard "pwd > d" choking).2.status = 1
      ∧ choking.world.Complains (executeLine .standard "pwd > d" choking).2.world := by
  have hline : Line.parse "pwd > d" = .ok (.redirect "pwd" "d" .overwrite) := by decide
  have hopen : choking.world.files.openTarget (choking.world.env.locate "d") .overwrite
      = .ok (.device (.fitful [2]), choking.world.files) := by decide +kernel
  obtain ⟨-, -, hlost, -⟩ := redirect_delivers hline hopen
  have hreached : reached .standard "pwd"
      (choking.world.redirected (.device (.fitful [2])) choking.world.files) = encode "/r" := by
    decide +kernel
  have hoffered : (program .standard "pwd").offered
      (choking.world.redirected (.device (.fitful [2])) choking.world.files)
        = encode "/r\n" := by
    decide +kernel
  obtain ⟨hstatus, hcomplains⟩ := hlost (.inl (by rw [hreached, hoffered]; decide +kernel))
  exact ⟨hline, hopen, hreached, hstatus, hcomplains rfl⟩

end Session

end LineShell
