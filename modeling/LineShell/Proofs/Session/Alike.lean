/-
Worlds that differ in what has been said.

Two worlds are alike if they differ at most in the console and in the error stream, and both error
streams take everything.  A reply tells of the console only when something is printed there; a
question to the user goes there too, but is answered whether or not it could be seen.  So where the
output is a buffer or a file, two alike worlds go through the same run, whatever the command is, and
the worlds behind it are alike again.

This is the step, and the rest is carried through the execution of a line.  A redirected command and
the left side of a pipe do not print on the console, whatever the output of the session is; only the
right side of a pipe and a simple command do.
-/
import LineShell.Proofs.Session.Complaints
import LineShell.Proofs.Session.Streams

set_option autoImplicit false

namespace LineShell

/-! ## Worlds -/

namespace World

variable {u v w : World}

/-- The same world but for what has been said: another console, and another error stream. The error
streams take everything. -/
structure Alike (u v : World) : Prop where
  room : u.errors.room = none
  said : ∃ console errors : Console, errors.room = none
    ∧ v = { u with console := console, errors := errors }

/-- The same effects: what the files and the environment are. -/
structure Agrees (u v : World) : Prop where
  files_eq : u.files = v.files
  env_eq : u.env = v.env

namespace Agrees

theorem refl (w : World) : w.Agrees w := ⟨rfl, rfl⟩

theorem symm (h : u.Agrees v) : v.Agrees u := ⟨h.files_eq.symm, h.env_eq.symm⟩

theorem trans (h : u.Agrees v) (h' : v.Agrees w) : u.Agrees w :=
  ⟨h.files_eq.trans h'.files_eq, h.env_eq.trans h'.env_eq⟩

end Agrees

namespace Alike

theorem refl (h : w.errors.room = none) : w.Alike w := ⟨h, w.console, w.errors, h, rfl⟩

theorem symm (h : u.Alike v) : v.Alike u := by
  obtain ⟨hroom, console, errors, hroomThere, rfl⟩ := h
  exact ⟨hroomThere, u.console, u.errors, hroom, rfl⟩

theorem trans (h : u.Alike v) (h' : v.Alike w) : u.Alike w := by
  obtain ⟨hroom, console, errors, -, rfl⟩ := h
  obtain ⟨-, console', errors', hroomThere, rfl⟩ := h'
  exact ⟨hroom, console', errors', hroomThere, rfl⟩

theorem agrees (h : u.Alike v) : u.Agrees v := by
  obtain ⟨-, console, errors, -, rfl⟩ := h
  exact ⟨rfl, rfl⟩

theorem output_eq (h : u.Alike v) : v.output = u.output := by
  obtain ⟨-, console, errors, -, rfl⟩ := h
  rfl

theorem input_eq (h : u.Alike v) : v.input = u.input := by
  obtain ⟨-, console, errors, -, rfl⟩ := h
  rfl

/-- The error stream takes what is written to it, and nothing else becomes of it. -/
theorem complain (h : w.errors.room = none) (data : Bytes) :
    (w.complain data).1 = .ok () ∧ w.Alike (w.complain data).2 := by
  have htaken : w.complain data = (.ok (), { w with errors := w.errors.append data }) := by
    rw [World.complain, Console.write_eq_append h]
  rw [htaken]
  exact ⟨rfl, h, w.console, w.errors.append data, h, rfl⟩

/-- Only a print on the console tells alike worlds apart. -/
theorem answer (h : u.Alike v) {r : Request} (hr : u.output = .console → ∀ data, r ≠ .print data) :
    (u.answer r).1 = (v.answer r).1 ∧ (u.answer r).2.Alike (v.answer r).2 := by
  obtain ⟨hroom, console, errors, hroomThere, rfl⟩ := h
  cases r with
  | print data =>
    show (u.print data).1 = (World.print _ data).1 ∧ (u.print data).2.Alike (World.print _ data).2
    rcases houtput : u.output with _ | buffer | sink
    · exact absurd rfl (hr houtput data)
    · simp only [World.print, houtput]
      exact ⟨trivial, hroom, console, errors, hroomThere, rfl⟩
    · simp only [World.print, houtput]
      exact ⟨trivial, hroom, console, errors, hroomThere, rfl⟩
  | complain data =>
    obtain ⟨htaken, hleft⟩ := complain hroom data
    obtain ⟨htakenThere, hright⟩ :=
      complain (w := { u with console := console, errors := errors }) hroomThere data
    refine ⟨htaken.trans htakenThere.symm, hleft.symm.trans (.trans ?_ hright)⟩
    exact ⟨hroom, console, errors, hroomThere, rfl⟩
  | readUntil b =>
    show (u.readUntil b).1 = (World.readUntil _ b).1
      ∧ (u.readUntil b).2.Alike (World.readUntil _ b).2
    rcases hinput : u.input with _ | reader
    · simp only [World.readUntil, hinput]
      exact ⟨trivial, hroom, console, errors, hroomThere, rfl⟩
    · simp only [World.readUntil, hinput]
      exact ⟨trivial, hroom, console, errors, hroomThere, rfl⟩
  | inputLeft => exact ⟨rfl, hroom, console, errors, hroomThere, rfl⟩
  | confirm question =>
    show (u.confirm question).1 = (World.confirm _ question).1
      ∧ (u.confirm question).2.Alike (World.confirm _ question).2
    rcases hrespondent : u.respondent with (_ | ⟨reply, replies⟩) | _
    · simp only [World.confirm, hrespondent]
      exact ⟨trivial, hroom, console, errors, hroomThere, rfl⟩
    · simp only [World.confirm, hrespondent]
      exact ⟨trivial, hroom, console, errors, hroomThere, rfl⟩
    · -- the user is asked on the console, and answers whether or not the question could be seen
      simp only [World.confirm, hrespondent]
      exact ⟨trivial, hroom, (console.write (Text.encode question)).2, errors, hroomThere, rfl⟩
  | environment => exact ⟨rfl, hroom, console, errors, hroomThere, rfl⟩
  | setEnvironment env => exact ⟨rfl, hroom, console, errors, hroomThere, rfl⟩
  | files call => exact ⟨rfl, hroom, console, errors, hroomThere, rfl⟩

end Alike

end World

/-! ## Commands -/

/-- Where the output is not the console, alike worlds go through the same run. -/
theorem Action.run_alike {α : Type} (a : Action α) {u v : World} (h : u.Alike v)
    (houtput : u.output ≠ .console) :
    (a.run u).1 = (a.run v).1 ∧ (a.run u).2.Alike (a.run v).2 := by
  induction a generalizing u v with
  | done a => exact ⟨rfl, h⟩
  | fail failure => exact ⟨rfl, h⟩
  | panic message => exact ⟨rfl, h⟩
  | request r next ih =>
    obtain ⟨hreply, hafter⟩ := h.answer fun hconsole => absurd hconsole houtput
    have houtputAfter : (u.answer r).2.output ≠ .console := by
      intro hconsole
      exact houtput ((u.sameStreams_answer r).output.console_iff.mpr hconsole)
    rw [Action.run_request, Action.run_request, ← hreply]
    exact ih _ hafter houtputAfter

/-! ## Lines -/

namespace Session

variable {table : VerbTable} {s t : Session} {inner : Session → Ending × Session}

/-- Two executions that end in the same way, in worlds that are alike. -/
def EndAlike (ran other : Ending × Session) : Prop :=
  ran.1 = other.1 ∧ ran.2.world.Alike other.2.world

/-- Where the output is not the console, alike sessions go through the same execution. -/
def InStep (inner : Session → Ending × Session) : Prop :=
  ∀ s t : Session, s.world.Alike t.world → s.world.output ≠ .console → EndAlike (inner s) (inner t)

theorem report_alike (h : s.world.Alike t.world) (r : Report) :
    (s.report r).world.Alike (t.report r).world := by
  have hsaid := World.Alike.complain h.room (Text.encode r.message ++ [Text.newline])
  have hsaidThere := World.Alike.complain h.symm.room (Text.encode r.message ++ [Text.newline])
  exact hsaid.2.symm.trans (h.trans hsaidThere.2)

theorem withOutput_alike (h : s.world.Alike t.world) (output : Output) :
    (s.withOutput output).world.Alike (t.withOutput output).world := by
  obtain ⟨hroom, console, errors, hroomThere, hworld⟩ := h
  exact ⟨hroom, console, errors, hroomThere, by rw [withOutput, withOutput, hworld]⟩

theorem withInput_alike (h : s.world.Alike t.world) (input : Input) :
    (s.withInput input).world.Alike (t.withInput input).world := by
  obtain ⟨hroom, console, errors, hroomThere, hworld⟩ := h
  exact ⟨hroom, console, errors, hroomThere, by rw [withInput, withInput, hworld]⟩

theorem captured_eq (h : s.world.Alike t.world) : s.captured = t.captured := by
  rw [captured, captured, h.output_eq]

theorem flushOutput_alike (h : s.world.Alike t.world) :
    s.flushOutput.1 = t.flushOutput.1
      ∧ s.flushOutput.2.world.Alike t.flushOutput.2.world := by
  rcases houtput : s.world.output with _ | buffer | sink
  · simp only [flushOutput, h.output_eq, houtput]
    exact ⟨trivial, h⟩
  · simp only [flushOutput, h.output_eq, houtput]
    exact ⟨trivial, h⟩
  · simp only [flushOutput, h.output_eq, houtput, ← h.agrees.files_eq]
    obtain ⟨hroom, console, errors, hroomThere, hworld⟩ := h
    refine ⟨trivial, hroom, console, errors, hroomThere, ?_⟩
    rw [hworld]

/-- The target of a redirection is opened in both sessions, or in none. -/
theorem openOutput_alike (h : s.world.Alike t.world) (target : String) (mode : Redirection) :
    (∃ e, s.openOutput (s.world.env.locate target) mode = .error e
        ∧ t.openOutput (t.world.env.locate target) mode = .error e)
      ∨ ∃ opened openedThere, s.openOutput (s.world.env.locate target) mode = .ok opened
        ∧ t.openOutput (t.world.env.locate target) mode = .ok openedThere
        ∧ opened.world.Alike openedThere.world ∧ opened.world.output ≠ .console := by
  rw [openOutput, openOutput, ← h.agrees.env_eq, ← h.agrees.files_eq]
  rcases s.world.files.openSink (s.world.env.locate target) mode with e | ⟨sink, files⟩
  · exact .inl ⟨e, rfl, rfl⟩
  · obtain ⟨hroom, console, errors, hroomThere, hworld⟩ := h
    refine .inr ⟨_, _, rfl, rfl, ⟨hroom, console, errors, hroomThere, ?_⟩, nofun⟩
    rw [hworld]

theorem dispatch_inStep (command : String) : InStep (dispatch table command) := by
  intro s t h houtput
  obtain ⟨hended, hworld⟩ := @dispatch_eq_run table command s
  obtain ⟨hendedThere, hworldThere⟩ := @dispatch_eq_run table command t
  obtain ⟨houtcome, halike⟩ := (program table command).run_alike h houtput
  constructor
  · rw [hended, hendedThere, houtcome]
  · rw [hworld, hworldThere]
    exact halike

/-- A redirected command does not print on the console, whatever the output is that is put back. -/
theorem redirect_alike (hinner : InStep inner) (h : s.world.Alike t.world) (target : String)
    (mode : Redirection) :
    EndAlike (redirect inner target mode s) (redirect inner target mode t) := by
  rcases openOutput_alike h target mode with
    ⟨e, hopen, hopenThere⟩ | ⟨opened, openedThere, hopen, hopenThere, halike, houtput⟩
  · rw [redirect_of_error hopen, redirect_of_error hopenThere]
    exact ⟨rfl, report_alike h _⟩
  · -- inside, the output is the file that was opened
    obtain ⟨hended, hinside⟩ := hinner opened openedThere halike houtput
    obtain ⟨hflushed, hemptied⟩ := flushOutput_alike hinside
    have hrestored := withOutput_alike hemptied s.world.output
    rw [redirect_of_opened hopen, redirect_of_opened hopenThere]
    simp only
    rw [h.output_eq, ← hended, ← hflushed]
    split
    · exact ⟨rfl, report_alike hrestored _⟩
    · exact ⟨rfl, hrestored⟩

/-- The left side of a pipe does not print on the console either.  What it leaves open is the right
side, which has the same to read in both sessions. -/
theorem pipe_alike_cases (hinner : InStep inner) (h : s.world.Alike t.world) (right : String) :
    EndAlike (pipe table inner right s) (pipe table inner right t)
      ∨ tokenize right = ["cat"] ∧ ∃ (reading readingThere : Session) (input : Input),
        reading.world.Alike readingThere.world ∧ reading.world.output = s.world.output
          ∧ pipe table inner right s = ((dispatch table right reading).1,
            (dispatch table right reading).2.withInput input)
          ∧ pipe table inner right t = ((dispatch table right readingThere).1,
            (dispatch table right readingThere).2.withInput input) := by
  -- on the left side, the output is a buffer
  obtain ⟨hended, hinside⟩ := hinner _ _ (withOutput_alike h (.capture .empty)) nofun
  have hrestored := withOutput_alike hinside s.world.output
  rcases hleft : (inner (s.withOutput (.capture .empty))).1 with _ | message
  · rw [pipe_of_returned hleft, pipe_of_returned (hended.symm.trans hleft)]
    simp only
    rw [h.output_eq, ← captured_eq hinside]
    by_cases hcat : tokenize right = ["cat"]
    · right
      refine ⟨hcat, _, _, _, withInput_alike hrestored _, rfl, if_pos hcat, ?_⟩
      rw [if_pos hcat, hinside.input_eq]
    · left
      rw [if_neg hcat, if_neg hcat]
      exact ⟨rfl, report_alike hrestored _⟩
  · left
    rw [pipe_of_unwound hleft, pipe_of_unwound (hended.symm.trans hleft), h.output_eq]
    exact ⟨rfl, hrestored⟩

/-- Where the output is not the console, alike sessions execute a job in the same way. -/
theorem execute_inStep (job : Job) : InStep (execute table job) := by
  induction job with
  | blank => exact fun s t h _ => ⟨rfl, h⟩
  | malformed e => exact fun s t h _ => ⟨rfl, report_alike h _⟩
  | simple command =>
    intro s t h houtput
    exact dispatch_inStep command { s with status := 0 } { t with status := 0 } h houtput
  | redirect job target mode ih =>
    intro s t h _
    exact @redirect_alike { s with status := 0 } { t with status := 0 } _ ih h target mode
  | pipe left right ih =>
    intro s t h houtput
    show EndAlike (pipe table (execute table left) right { s with status := 0 })
      (pipe table (execute table left) right { t with status := 0 })
    have hreset : ({ s with status := 0 } : Session).world.Alike
        ({ t with status := 0 } : Session).world := h
    rcases pipe_alike_cases ih hreset right with
      halike | ⟨-, reading, readingThere, input, hreading, hsame, hpipe, hpipeThere⟩
    · exact halike
    · have hright : reading.world.output ≠ .console := by
        rw [hsame]
        exact houtput
      obtain ⟨hended, hworlds⟩ := dispatch_inStep right reading readingThere hreading hright
      rw [hpipe, hpipeThere]
      exact ⟨hended, withInput_alike hworlds input⟩

end Session

end LineShell
