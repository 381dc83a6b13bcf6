/-
Lines that leave the session's own input alone.

Two sessions may differ in what there is to read, and in what was written to the console and to the
error stream, as long as these take the same writes (`Console.Pace`).  No reply tells them apart
but one to a request that goes to the session's own input: a read while nothing is piped, or a
question to the user.  So a line that makes no such request goes the same way in both, and leaves
both inputs as they were (`Session.execute_abreast`).

What a line asks for is looked up in one session only.  The first request that goes to the input
would be the same in the other one, and up to there the two runs see the same.
-/
import LineShell.Proofs.Session.Failures

set_option autoImplicit false

namespace LineShell

open LineShell.Text

/-! ## Consoles side by side -/

/-- A way in which two output streams belong together that no write ends, and that no write tells
apart. -/
structure Console.Pace where
  rel : Console → Console → Prop
  write : ∀ {c d : Console} (data : Bytes), rel c d →
    (c.write data).1 = (d.write data).1 ∧ rel (c.write data).2 (d.write data).2

/-! ## What goes to the input of the session -/

/-- A request that the session's own input answers. -/
def World.draws (w : World) : Request → List Request
  | .readUntil b => if w.input = .session then [.readUntil b] else []
  | .inputLeft => if w.input = .session then [.inputLeft] else []
  | .confirm question => if w.respondent = .user then [.confirm question] else []
  | _ => []

namespace World

theorem draws_readUntil (w : World) (b : UInt8) :
    w.draws (.readUntil b) = if w.input = .session then [.readUntil b] else [] :=
  rfl

theorem draws_inputLeft (w : World) :
    w.draws .inputLeft = if w.input = .session then [.inputLeft] else [] :=
  rfl

theorem draws_confirm (w : World) (question : String) :
    w.draws (.confirm question) = if w.respondent = .user then [.confirm question] else [] :=
  rfl

end World

namespace Session

/-- None of the commands that are executed for a job reads from the session's own input, and none of
them asks a user. -/
def LeavesInput (table : VerbTable) (job : Job) (s : Session) : Prop :=
  ∀ x ∈ stages table job s, (program table x.command).record World.draws x.before.world = []

end Session

section Abreast

variable (P Q : Console.Pace) (here there : Source)

/-! ## Worlds side by side -/

/-- Two worlds with inputs of their own. Their consoles keep pace with each other, and so do their
error streams. -/
structure World.Abreast (u v : World) : Prop where
  source : u.source = here
  rest : ∃ console errors, P.rel u.console console ∧ Q.rel u.errors errors
    ∧ v = { u with console := console, errors := errors, source := there }

variable {P Q here there} {u v : World}

namespace World.Abreast

theorem env_eq (h : u.Abreast P Q here there v) : v.env = u.env := by
  obtain ⟨-, console, errors, -, -, rfl⟩ := h
  rfl

theorem files_eq (h : u.Abreast P Q here there v) : v.files = u.files := by
  obtain ⟨-, console, errors, -, -, rfl⟩ := h
  rfl

theorem output_eq (h : u.Abreast P Q here there v) : v.output = u.output := by
  obtain ⟨-, console, errors, -, -, rfl⟩ := h
  rfl

theorem source_there (h : u.Abreast P Q here there v) : v.source = there := by
  obtain ⟨-, console, errors, -, -, rfl⟩ := h
  rfl

theorem input_eq (h : u.Abreast P Q here there v) : v.input = u.input := by
  obtain ⟨-, console, errors, -, -, rfl⟩ := h
  rfl

theorem complain (h : u.Abreast P Q here there v) (data : Bytes) :
    (u.complain data).1 = (v.complain data).1
      ∧ (u.complain data).2.Abreast P Q here there (v.complain data).2 := by
  obtain ⟨hsource, console, errors, hconsole, herrors, rfl⟩ := h
  obtain ⟨hreply, hwritten⟩ := Q.write data herrors
  exact ⟨hreply, hsource, console, _, hconsole, hwritten, rfl⟩

theorem print (h : u.Abreast P Q here there v) (data : Bytes) :
    (u.print data).1 = (v.print data).1
      ∧ (u.print data).2.Abreast P Q here there (v.print data).2 := by
  obtain ⟨hsource, console, errors, hconsole, herrors, rfl⟩ := h
  rcases houtput : u.output with _ | buffer | sink
  · obtain ⟨hreply, hwritten⟩ := P.write data hconsole
    simp only [World.print, houtput]
    exact ⟨hreply, hsource, _, errors, hwritten, herrors, rfl⟩
  · simp only [World.print, houtput]
    exact ⟨trivial, hsource, console, errors, hconsole, herrors, rfl⟩
  · simp only [World.print, houtput]
    exact ⟨trivial, hsource, console, errors, hconsole, herrors, rfl⟩

/-- A request that the session's own input does not answer is answered alike. -/
theorem answer (h : u.Abreast P Q here there v) {r : Request} (hr : u.draws r = []) :
    (u.answer r).1 = (v.answer r).1 ∧ (u.answer r).2.Abreast P Q here there (v.answer r).2 := by
  cases r with
  | print data => exact h.print data
  | complain data => exact h.complain data
  | readUntil b =>
    rcases hinput : u.input with _ | reader
    · rw [World.draws_readUntil, if_pos hinput] at hr
      cases hr
    · obtain ⟨hsource, console, errors, hconsole, herrors, rfl⟩ := h
      simp only [World.answer, World.readUntil, hinput]
      exact ⟨trivial, hsource, console, errors, hconsole, herrors, rfl⟩
  | inputLeft =>
    rcases hinput : u.input with _ | reader
    · rw [World.draws_inputLeft, if_pos hinput] at hr
      cases hr
    · refine ⟨?_, h⟩
      simp only [World.answer, World.inputLeft, h.input_eq, hinput]
  | confirm question =>
    rcases hrespondent : u.respondent with (_ | ⟨reply, replies⟩) | _
    · obtain ⟨hsource, console, errors, hconsole, herrors, rfl⟩ := h
      simp only [World.answer, World.confirm, hrespondent]
      exact ⟨trivial, hsource, console, errors, hconsole, herrors, rfl⟩
    · obtain ⟨hsource, console, errors, hconsole, herrors, rfl⟩ := h
      simp only [World.answer, World.confirm, hrespondent]
      exact ⟨trivial, hsource, console, errors, hconsole, herrors, rfl⟩
    · rw [World.draws_confirm, if_pos hrespondent] at hr
      cases hr
  | environment => exact ⟨h.env_eq.symm, h⟩
  | setEnvironment env =>
    obtain ⟨hsource, console, errors, hconsole, herrors, rfl⟩ := h
    exact ⟨rfl, hsource, console, errors, hconsole, herrors, rfl⟩
  | files call =>
    obtain ⟨hsource, console, errors, hconsole, herrors, rfl⟩ := h
    exact ⟨rfl, hsource, console, errors, hconsole, herrors, rfl⟩

end World.Abreast

/-- A command that makes no request to the session's own input goes the same way in both worlds. -/
theorem Action.run_abreast {α : Type} (a : Action α) {u v : World} (h : u.Abreast P Q here there v)
    (hdraws : a.record World.draws u = []) :
    (a.run u).1 = (a.run v).1 ∧ (a.run u).2.Abreast P Q here there (a.run v).2 := by
  induction a generalizing u v with
  | done a => exact ⟨rfl, h⟩
  | fail failure => exact ⟨rfl, h⟩
  | panic message => exact ⟨rfl, h⟩
  | request r next ih =>
    obtain ⟨hnow, hlater⟩ := List.append_eq_nil_iff.mp hdraws
    obtain ⟨hreply, hafter⟩ := h.answer hnow
    rw [Action.run_request, Action.run_request, ← hreply]
    exact ih _ hafter hlater

/-! ## Lines -/

namespace Session

variable (P Q here there)

/-- Two sessions with the same status in worlds side by side. -/
structure Abreast (s t : Session) : Prop where
  status : s.status = t.status
  world : s.world.Abreast P Q here there t.world

/-- Two executions that end in the same way. -/
def EndAbreast (ran other : Ending × Session) : Prop :=
  ran.1 = other.1 ∧ ran.2.Abreast P Q here there other.2

variable {P Q here there} {table : VerbTable} {s t : Session}
  {inner : Session → Ending × Session}

/-- The status does not count where it is reset. -/
theorem Abreast.reset (h : s.world.Abreast P Q here there t.world) :
    Abreast P Q here there { s with status := 0 } { t with status := 0 } := ⟨rfl, h⟩

theorem Abreast.report (h : s.world.Abreast P Q here there t.world) (r : Report) :
    (s.report r).Abreast P Q here there (t.report r) := ⟨rfl, (h.complain _).2⟩

theorem Abreast.withOutput (h : s.Abreast P Q here there t) (output : Output) :
    (s.withOutput output).Abreast P Q here there (t.withOutput output) := by
  obtain ⟨hstatus, hsource, console, errors, hconsole, herrors, hworld⟩ := h
  exact ⟨hstatus, hsource, console, errors, hconsole, herrors,
    by rw [Session.withOutput, Session.withOutput, hworld]⟩

theorem Abreast.withInput (h : s.Abreast P Q here there t) (input : Input) :
    (s.withInput input).Abreast P Q here there (t.withInput input) := by
  obtain ⟨hstatus, hsource, console, errors, hconsole, herrors, hworld⟩ := h
  exact ⟨hstatus, hsource, console, errors, hconsole, herrors,
    by rw [Session.withInput, Session.withInput, hworld]⟩

theorem Abreast.flushOutput (h : s.Abreast P Q here there t) :
    s.flushOutput.1 = t.flushOutput.1
      ∧ s.flushOutput.2.Abreast P Q here there t.flushOutput.2 := by
  rcases houtput : s.world.output with _ | buffer | sink
  · simp only [Session.flushOutput, h.world.output_eq, houtput]
    exact ⟨trivial, h⟩
  · simp only [Session.flushOutput, h.world.output_eq, houtput]
    exact ⟨trivial, h⟩
  · simp only [Session.flushOutput, h.world.output_eq, houtput, h.world.files_eq]
    obtain ⟨hstatus, hsource, console, errors, hconsole, herrors, hworld⟩ := h
    exact ⟨trivial, hstatus, hsource, console, errors, hconsole, herrors, by rw [hworld]⟩

/-- The target of a redirection is opened in both sessions, or in none. -/
theorem Abreast.openOutput (h : s.Abreast P Q here there t) (target : String) (mode : Redirection) :
    (∃ e, s.openOutput (s.world.env.locate target) mode = .error e
        ∧ t.openOutput (t.world.env.locate target) mode = .error e)
      ∨ ∃ opened openedThere, s.openOutput (s.world.env.locate target) mode = .ok opened
        ∧ t.openOutput (t.world.env.locate target) mode = .ok openedThere
        ∧ opened.Abreast P Q here there openedThere := by
  rw [Session.openOutput, Session.openOutput, h.world.env_eq, h.world.files_eq]
  rcases s.world.files.openSink (s.world.env.locate target) mode with e | ⟨sink, files⟩
  · exact .inl ⟨e, rfl, rfl⟩
  · obtain ⟨hstatus, hsource, console, errors, hconsole, herrors, hworld⟩ := h
    exact .inr
      ⟨_, _, rfl, rfl, hstatus, hsource, console, errors, hconsole, herrors, by rw [hworld]⟩

/-- A handler goes the same way in both sessions if it makes no request to the input. -/
theorem runHandler_abreast {handler : Handler} {verb : String} {tokens : List String}
    (h : s.Abreast P Q here there t)
    (hdraws : (handler tokens).record World.draws s.world = []) :
    EndAbreast P Q here there (s.runHandler handler verb tokens)
      (t.runHandler handler verb tokens) := by
  obtain ⟨houtcome, hworld⟩ := (handler tokens).run_abreast h.world hdraws
  unfold runHandler
  generalize (handler tokens).run s.world = ran at houtcome hworld ⊢
  generalize (handler tokens).run t.world = other at houtcome hworld ⊢
  rcases ran with ⟨outcome, ran⟩
  rcases other with ⟨_, other⟩
  obtain rfl := houtcome
  rcases outcome with status | failure | message
  · exact ⟨rfl, rfl, hworld⟩
  · exact ⟨rfl, .report hworld _⟩
  · exact ⟨rfl, h.status, hworld⟩

theorem dispatch_abreast {command : String} (h : s.Abreast P Q here there t)
    (hdraws : (program table command).record World.draws s.world = []) :
    EndAbreast P Q here there (dispatch table command s) (dispatch table command t) := by
  unfold dispatch
  rcases htokens : tokenize command with _ | ⟨verb, words⟩
  · exact ⟨rfl, h⟩
  · simp only
    rcases hfind : table.find? verb with _ | handler
    · exact ⟨rfl, .report h.world _⟩
    · apply runHandler_abreast h
      rw [program, htokens] at hdraws
      simp only [hfind] at hdraws
      rw [Action.record_bind, Action.record_attempt] at hdraws
      exact (List.append_eq_nil_iff.mp hdraws).1

theorem redirect_abreast {target : String} {mode : Redirection} (h : s.Abreast P Q here there t)
    (hinner : ∀ opened openedThere, s.openOutput (s.world.env.locate target) mode = .ok opened →
      opened.Abreast P Q here there openedThere →
      EndAbreast P Q here there (inner opened) (inner openedThere)) :
    EndAbreast P Q here there (redirect inner target mode s) (redirect inner target mode t) := by
  rcases h.openOutput target mode with
    ⟨e, hopen, hopenThere⟩ | ⟨opened, openedThere, hopen, hopenThere, hopened⟩
  · rw [redirect_of_error hopen, redirect_of_error hopenThere]
    exact ⟨rfl, .report h.world _⟩
  · obtain ⟨hended, hinside⟩ := hinner opened openedThere hopen hopened
    obtain ⟨hflushed, hemptied⟩ := hinside.flushOutput
    have hrestored := hemptied.withOutput s.world.output
    rw [redirect_of_opened hopen, redirect_of_opened hopenThere]
    simp only
    rw [h.world.output_eq, ← hended, ← hflushed]
    split
    · exact ⟨rfl, .report hrestored.world _⟩
    · exact ⟨rfl, hrestored⟩

theorem pipe_abreast {right : String} (h : s.Abreast P Q here there t)
    (hinner : EndAbreast P Q here there (inner (s.withOutput (.capture .empty)))
      (inner (t.withOutput (.capture .empty))))
    (hright : (inner (s.withOutput (.capture .empty))).1 = .returned → tokenize right = ["cat"] →
      let after := (inner (s.withOutput (.capture .empty))).2
      (program table right).record World.draws
        ((after.withOutput s.world.output).withInput (.memory ⟨after.captured⟩)).world = []) :
    EndAbreast P Q here there (pipe table inner right s) (pipe table inner right t) := by
  obtain ⟨hended, hinside⟩ := hinner
  have hrestored := hinside.withOutput s.world.output
  rcases hleft : (inner (s.withOutput (.capture .empty))).1 with _ | message
  · have hcaptured : (inner (s.withOutput (.capture .empty))).2.captured
        = (inner (t.withOutput (.capture .empty))).2.captured := by
      rw [captured, captured, hinside.world.output_eq]
    rw [pipe_of_returned hleft, pipe_of_returned (hended.symm.trans hleft)]
    simp only
    rw [h.world.output_eq, ← hcaptured]
    by_cases hcat : tokenize right = ["cat"]
    · rw [if_pos hcat, if_pos hcat, hinside.world.input_eq]
      have hread := hrestored.withInput
        (.memory ⟨(inner (s.withOutput (.capture .empty))).2.captured⟩)
      obtain ⟨hendedRight, hran⟩ := dispatch_abreast hread (hright hleft hcat)
      exact ⟨hendedRight, hran.withInput _⟩
    · rw [if_neg hcat, if_neg hcat]
      exact ⟨rfl, .report hrestored.world _⟩
  · rw [pipe_of_unwound hleft, pipe_of_unwound (hended.symm.trans hleft), h.world.output_eq]
    exact ⟨rfl, hrestored⟩

/-- **A job that leaves the input alone is executed in the same way in both sessions**, and leaves
both inputs as they were. -/
theorem execute_abreast {job : Job} {s t : Session} (h : s.world.Abreast P Q here there t.world)
    (hleaves : LeavesInput table job s) :
    EndAbreast P Q here there (execute table job s) (execute table job t) := by
  induction job generalizing s t with
  | blank => exact ⟨rfl, .reset h⟩
  | malformed e => exact ⟨rfl, @Abreast.report _ _ _ _ { s with status := 0 } _ h _⟩
  | simple command =>
    apply dispatch_abreast (.reset h)
    exact hleaves ⟨command, { s with status := 0 }⟩ List.mem_cons_self
  | redirect job target mode ih =>
    apply redirect_abreast (.reset h)
    intro opened openedThere hopen hopened
    apply ih hopened.world
    intro x hx
    apply hleaves x
    rw [stages_redirect, hopen]
    exact hx
  | pipe left right ih =>
    have hreset := @Abreast.reset P Q here there s t h
    apply pipe_abreast hreset
    · apply ih (hreset.withOutput (.capture .empty)).world
      intro x hx
      exact hleaves x (List.mem_append_left _ hx)
    · intro hreturned hcat
      refine hleaves ⟨right, _⟩ (List.mem_append_right _ ?_)
      rw [if_pos ⟨hreturned, hcat⟩]
      exact List.mem_singleton_self _

theorem executeLine_abreast {line : String} {s t : Session}
    (h : s.world.Abreast P Q here there t.world)
    (hleaves : LeavesInput table (Job.ofText line) s) :
    EndAbreast P Q here there (executeLine table line s) (executeLine table line t) :=
  execute_abreast h hleaves

end Session

end Abreast

end LineShell
