/-
What the status of a line tells.

A status other than 0 tells of a message on the error stream.  The converse fails in one place.
A pipe into `cat` ends with the status of `cat`, which begins with a status of its own; if `cat` has
nothing to complain about, the status is 0 whatever the left side has complained about.  In
every other line the last part is all that can complain, so the status tells exactly whether
something was written.  The exit code of a program that runs a single line is read off
the status, and has the same blind spot.
-/
import LineShell.Program
import LineShell.Proofs.Session.Failures

set_option autoImplicit false

namespace LineShell

open LineShell.Text

namespace Session

variable {line left right : String} {s : Session}

/-- The left side of a pipe has written to the error stream, and the right side has not. -/
def Forgets (line : String) (s : Session) : Prop :=
  ∃ left right, Line.parse line = .ok (.pipe left right)
    ∧ (executeLine .standard left (s.withOutput (.capture .empty))).2.world.errors
        ≠ s.world.errors
    ∧ (executeLine .standard line s).2.world.errors
        = (executeLine .standard left (s.withOutput (.capture .empty))).2.world.errors

theorem lastBegun_of_pipe (hline : Line.parse line = .ok (.pipe left right)) (s : Session) :
    lastBegun .standard (Job.ofText line) s
      = (executeLine .standard left (s.withOutput (.capture .empty))).2.world := by
  rw [Job.ofText_eq, hline]
  show (executeLine .standard left { s.withOutput (.capture .empty) with status := 0 }).2.world = _
  rw [executeLine_status]

/-- Without a pipe nothing is executed before the last part. -/
theorem errors_lastBegun (hline : ∀ l r, Line.parse line ≠ .ok (.pipe l r)) (s : Session) :
    (lastBegun .standard (Job.ofText line) s).errors = s.world.errors := by
  rw [Job.ofText_eq]
  rcases hparse : Line.parse line with e | (_ | command | ⟨l, r⟩ | ⟨command, target, mode⟩)
  · rfl
  · rfl
  · rfl
  · exact absurd hparse (hline l r)
  · simp only
    rw [Job.ofText_of_redirect hparse, lastBegun_redirect]
    rcases hopen : { s with status := 0 }.openOutput (s.world.env.locate target) mode with
      e | opened
    · rw [hopen]
    · rw [hopen]
      obtain ⟨handle, files, -, rfl⟩ := openOutput_cases hopen
      rfl

/-- The status of a line is other than 0 exactly if something was written to the error stream that
was not forgotten. -/
theorem executeLine_status_ne_zero_iff (hroom : s.world.errors.room = none) :
    (executeLine .standard line s).2.status ≠ 0 ↔
      (executeLine .standard line s).2.world.errors ≠ s.world.errors ∧ ¬ Forgets line s := by
  obtain ⟨-, hsettles⟩ := execute_settles (Job.ofText line) hroom
  have hstatus : (executeLine .standard line s).2.status ≠ 0 ↔
      (executeLine .standard line s).2.world.errors
        ≠ (lastBegun .standard (Job.ofText line) s).errors := hsettles.status_ne_zero_iff
  rw [hstatus]
  by_cases hpipe : ∃ l r, Line.parse line = .ok (.pipe l r)
  · obtain ⟨l, r, hparse⟩ := hpipe
    rw [lastBegun_of_pipe hparse]
    refine ⟨fun hright => ⟨?_, ?_⟩, fun ⟨hline, hforgets⟩ hright => ?_⟩
    · -- what the right side has complained about came behind all that the left side did
      refine (execute_complains hroom (hstatus.mpr ?_)).errors_ne
      rwa [lastBegun_of_pipe hparse]
    · rintro ⟨l', r', hparse', -, hsilent⟩
      rw [hparse] at hparse'
      injection hparse' with hparse'
      injection hparse' with hl
      exact hright (hl ▸ hsilent)
    · exact hforgets ⟨l, r, hparse, fun hleft => hline (hright.trans hleft), hright⟩
  · have hplain : ∀ l r, Line.parse line ≠ .ok (.pipe l r) := fun l r h => hpipe ⟨l, r, h⟩
    rw [errors_lastBegun hplain]
    exact ⟨fun h => ⟨h, fun ⟨l, r, hparse, _⟩ => hplain l r hparse⟩, And.left⟩

end Session

namespace Program

/-- A single line is executed in the session that the program begins, and its status decides. -/
theorem run_command (line : String) (around : Surroundings) :
    run ["-c", line] around =
      ⟨if (Session.executeLine .standard line around.session).2.status = 0
          ∧ (Session.executeLine .standard line around.session).1 = .returned then 0 else 1,
        (Session.executeLine .standard line around.session).2.world⟩ := by
  have hread : signature.read ["-c", line]
      = .accepted ⟨[(⟨["-c", "--command"], true⟩, some line)], []⟩ := rfl
  rw [run, hread]
  rfl

/-- The exit code of a single line is 1 exactly if its status is not 0. -/
theorem code_run_command (line : String) (around : Surroundings) :
    (run ["-c", line] around).code = 1
      ↔ (Session.executeLine .standard line around.session).2.status ≠ 0 := by
  have hreturned : (Session.executeLine .standard line around.session).1 = .returned :=
    (@Session.execute_settles (Job.ofText line) around.session rfl).2.returned
  rw [run_command, hreturned]
  by_cases hstatus : (Session.executeLine .standard line around.session).2.status = 0
  · rw [if_pos ⟨hstatus, rfl⟩]
    exact ⟨fun h => absurd h Nat.zero_ne_one, fun h => absurd hstatus h⟩
  · rw [if_neg fun h => hstatus h.1]
    exact ⟨fun _ => hstatus, fun _ => rfl⟩

/-- The program begins with an empty error stream. -/
theorem errors_run_command (line : String) (around : Surroundings) :
    (run ["-c", line] around).world.errors.bytes ≠ []
      ↔ (Session.executeLine .standard line around.session).2.world.errors
        ≠ around.session.world.errors := by
  obtain ⟨hvoices, hsettles⟩ := @Session.execute_settles (Job.ofText line) around.session rfl
  obtain ⟨data, hdata, -⟩ := hvoices.trans hsettles.voices
  change (Session.executeLine .standard line around.session).2.world.errors
    = (Console.blank none).append data at hdata
  show (run ["-c", line] around).world.errors.bytes ≠ [] ↔ _ ≠ Console.blank none
  rw [run_command, hdata]
  have hbytes : ((Console.blank none).append data).bytes = data := by
    simp [Console.append, Console.bytes, Console.blank]
  rw [hbytes]
  refine not_congr ⟨fun h => ?_, fun h => ?_⟩
  · rw [h, Console.append_nil]
  · rw [← hbytes, h]
    rfl

end Program

/-- Where the error stream takes everything, a line that has written to it ends with a status other
than 0 exactly if it is not a pipe whose right side has kept silent behind a left side that has
complained. The exit code of a program that runs the line fails to tell of errors in the same
case. -/
theorem Session.status_tells_errors_iff {line : String} {s : Session}
    (hroom : s.world.errors.room = none) :
    (((executeLine .standard line s).2.world.errors ≠ s.world.errors →
          (executeLine .standard line s).2.status ≠ 0)
        ↔ ¬ Forgets line s)
      ∧ ∀ around : Program.Surroundings, (Program.run ["-c", line] around).code = 1
        ↔ (Program.run ["-c", line] around).world.errors.bytes ≠ []
          ∧ ¬ Forgets line around.session := by
  refine ⟨?_, fun around => ?_⟩
  · rw [executeLine_status_ne_zero_iff hroom]
    refine ⟨fun h hforgets => ?_, fun hforgets herrors => ⟨herrors, hforgets⟩⟩
    obtain ⟨left, right, -, hleft, hsilent⟩ := id hforgets
    exact (h (by rwa [hsilent])).2 hforgets
  · rw [Program.code_run_command, Program.errors_run_command,
      executeLine_status_ne_zero_iff rfl]

/-- What the left side has complained about is forgotten. -/
theorem Session.status_tells_errors_iff_unknown :
    quiet.world.errors.room = none ∧ Forgets "nosuch | cat" quiet
      ∧ (executeLine .standard "nosuch | cat" quiet).2.status = 0
      ∧ (executeLine .standard "nosuch | cat" quiet).2.world.errors.bytes
        = encode "Unknown command: nosuch\n"
      ∧ ¬ ((executeLine .standard "nosuch | cat" quiet).2.world.errors ≠ quiet.world.errors →
          (executeLine .standard "nosuch | cat" quiet).2.status ≠ 0) := by
  have hforgets : Forgets "nosuch | cat" quiet :=
    ⟨"nosuch", "cat", by decide, by decide +kernel, by decide +kernel⟩
  exact ⟨rfl, hforgets, by decide +kernel, by decide +kernel,
    fun h => (status_tells_errors_iff rfl).1.mp h hforgets⟩

end LineShell
