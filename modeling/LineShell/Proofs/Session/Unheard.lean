/-
Lines that are not heard.

Two executions of a line that differ in how much the console takes leave the same files and the
same environment, unless the line is `exit` by itself.  A redirected command and the left side of a
pipe do not print on the console, so these go through the same run; and what is done on the
console, a simple command or the right side of a pipe, does the same whether or not it is heard.
`exit` says its farewell first and gives up if it is not taken, so an unheard `exit` does not end
the session.
-/
import LineShell.Proofs.Session.Restoration
import LineShell.Proofs.Verbs.Indifference

set_option autoImplicit false

namespace LineShell

open LineShell.Text

/-- A line that is a simple command `exit`, with words that the verb accepts. -/
def Line.Leaves (line : String) : Prop :=
  ∃ command words args, Line.parse line = .ok (.simple command)
    ∧ tokenize command = Verbs.exit.verb :: words
    ∧ Verbs.exit.signature.read (flagsFirst words) = .accepted args

namespace Session

variable {s t : Session}

/-- The same session with another console. -/
def withConsole (s : Session) (console : Console) : Session :=
  { s with world := { s.world with console := console } }

theorem withConsole_alike (hroom : s.world.errors.room = none) (console other : Console) :
    (s.withConsole console).world.Alike (s.withConsole other).world :=
  ⟨hroom, other, s.world.errors, hroom, rfl⟩

/-! ## Simple commands -/

/-- Behind its handler, a simple command changes neither the files nor the environment. -/
theorem runHandler_agrees (handler : Handler) (verb : String) (tokens : List String) (s : Session) :
    ((handler tokens).run s.world).2.Agrees (s.runHandler handler verb tokens).2.world := by
  rcases runHandler_cases handler verb tokens s with hsame | ⟨data, hcomplained⟩
  · rw [hsame]
    exact .refl _
  · rw [hcomplained]
    exact ⟨rfl, rfl⟩

/-- A simple command that does not leave the session does the same in alike sessions. -/
theorem dispatch_agrees (h : s.world.Alike t.world) {command : String}
    (hstays : ∀ words args, tokenize command = Verbs.exit.verb :: words →
      Verbs.exit.signature.read (flagsFirst words) ≠ .accepted args) :
    (dispatch .standard command s).2.world.Agrees (dispatch .standard command t).2.world := by
  rcases htokens : tokenize command with _ | ⟨verb, words⟩
  · unfold dispatch
    rw [htokens]
    exact h.agrees
  · rcases hfound : VerbTable.standard.find? verb with _ | handler
    · unfold dispatch
      rw [htokens]
      simp only [hfound]
      exact (report_alike h _).agrees
    · obtain ⟨b, hb, rfl, rfl⟩ :=
        (@VerbTable.builtin_of_find?_extended [] _ _ hfound).resolve_left List.not_mem_nil
      have hhandlers : ((b.handler (b.verb :: words)).run s.world).2.Agrees
          ((b.handler (b.verb :: words)).run t.world).2 := by
        apply Builtin.handler_agrees hb _ h
        rintro rfl args
        exact hstays words args htokens
      rw [dispatch_of_find? htokens hfound, dispatch_of_find? htokens hfound]
      exact (runHandler_agrees _ _ _ s).symm.trans (hhandlers.trans (runHandler_agrees _ _ _ t))

/-! ## Lines -/

/-- On any other output than the console every line does the same in alike sessions, and on the
console every line does that does not leave the session. -/
theorem executeLine_agrees (h : s.world.Alike t.world) {line : String}
    (hstays : s.world.output = .console → ¬ Line.Leaves line) :
    (executeLine .standard line s).2.world.Agrees (executeLine .standard line t).2.world := by
  by_cases hconsole : s.world.output = .console
  · have hreset : ({ s with status := 0 } : Session).world.Alike
        ({ t with status := 0 } : Session).world := h
    rcases hparse : Line.parse line with e | (_ | command | ⟨left, right⟩ | ⟨command, target, mode⟩)
    · rw [executeLine, executeLine, Job.ofText_eq, hparse]
      exact (report_alike hreset _).agrees
    · rw [executeLine, executeLine, Job.ofText_eq, hparse]
      exact h.agrees
    · rw [executeLine_of_simple hparse, executeLine_of_simple hparse]
      apply dispatch_agrees hreset
      intro words args htokens hread
      exact hstays hconsole ⟨command, words, args, hparse, htokens, hread⟩
    · rw [executeLine_of_pipe hparse, executeLine_of_pipe hparse]
      rcases pipe_alike_cases (execute_inStep (Job.ofText left)) hreset right with
        halike | ⟨hcat, reading, readingThere, input, hreading, -, hpipe, hpipeThere⟩
      · exact halike.2.agrees
      · -- the right side is `cat`, and no verb that leaves the session
        have hright : (dispatch .standard right reading).2.world.Agrees
            (dispatch .standard right readingThere).2.world := by
          apply dispatch_agrees hreading
          intro words args htokens
          rw [hcat] at htokens
          exact absurd (List.cons.inj htokens).1 (by decide)
        show (pipe .standard (execute .standard (Job.ofText left)) right _).2.world.Agrees
          (pipe .standard (execute .standard (Job.ofText left)) right _).2.world
        rw [hpipe, hpipeThere]
        exact ⟨hright.files_eq, hright.env_eq⟩
    · rw [executeLine_of_redirect hparse, executeLine_of_redirect hparse]
      exact (redirect_alike (execute_inStep _) hreset target mode).2.agrees
  · -- nothing is printed on the console, on whichever side of an operator it is
    exact (execute_inStep (Job.ofText line) s t h hconsole).2.agrees

/-- A line that leaves the session leaves it if the console takes the farewell, and does nothing
else. -/
theorem executeLine_of_leaves (hroom : s.world.errors.room = none)
    (hconsole : s.world.output = .console) {line : String} (hleaves : Line.Leaves line) :
    (executeLine .standard line s).2.world.files = s.world.files
      ∧ (executeLine .standard line s).2.world.env
        = { s.world.env with
            exiting := s.world.env.exiting || s.world.console.takes (encode "Exiting...\n") } := by
  obtain ⟨command, words, args, hparse, htokens, hread⟩ := hleaves
  have hfound : VerbTable.standard.find? Verbs.exit.verb = some Verbs.exit.handler := rfl
  have hhandler : Verbs.exit.handler (Verbs.exit.verb :: words)
      = Builtin.reporting (Verbs.exit.body args) := Builtin.handler_of_accepted hread
  obtain ⟨hfiles, henv⟩ := Builtin.run_exit_effects args hroom hconsole
  have hcommand := runHandler_agrees Verbs.exit.handler Verbs.exit.verb
    (Verbs.exit.verb :: words) { s with status := 0 }
  rw [executeLine_of_simple hparse, dispatch_of_find? htokens hfound, ← hcommand.files_eq,
    ← hcommand.env_eq, hhandler]
  exact ⟨hfiles, henv⟩

/-- **What a line does without being heard.** Where the error stream takes everything, two
executions of a line that differ in what the console takes leave the same files, the same current
directory and the same home.  They differ in whether the session is to end exactly if the line is
`exit` by itself, the output is the console, the session was to go on, and one of the consoles
takes the farewell where the other does not. -/
theorem executeLine_unheard (hroom : s.world.errors.room = none) (line : String)
    (console other : Console) :
    let here := (executeLine .standard line (s.withConsole console)).2.world
    let there := (executeLine .standard line (s.withConsole other)).2.world
    here.files = there.files ∧ here.env.currentDir = there.env.currentDir
      ∧ here.env.home = there.env.home
      ∧ (here.env.exiting ≠ there.env.exiting ↔
        Line.Leaves line ∧ s.world.output = .console ∧ s.world.env.exiting = false
          ∧ console.takes (encode "Exiting...\n") ≠ other.takes (encode "Exiting...\n")) := by
  intro here there
  by_cases hleaves : s.world.output = .console ∧ Line.Leaves line
  · -- the request to end is all that the farewell decides
    obtain ⟨hconsole, hleaves⟩ := hleaves
    obtain ⟨hfiles, henv⟩ :=
      executeLine_of_leaves (s := s.withConsole console) hroom hconsole hleaves
    obtain ⟨hfilesThere, henvThere⟩ :=
      executeLine_of_leaves (s := s.withConsole other) hroom hconsole hleaves
    have hexiting : here.env.exiting
        = (s.world.env.exiting || console.takes (encode "Exiting...\n")) :=
      congrArg Environment.exiting henv
    have hexitingThere : there.env.exiting
        = (s.world.env.exiting || other.takes (encode "Exiting...\n")) :=
      congrArg Environment.exiting henvThere
    refine ⟨hfiles.trans hfilesThere.symm, ?_, ?_, ?_⟩
    · exact congrArg Environment.currentDir henv |>.trans
        (congrArg Environment.currentDir henvThere).symm
    · exact congrArg Environment.home henv |>.trans (congrArg Environment.home henvThere).symm
    · rw [hexiting, hexitingThere]
      cases s.world.env.exiting <;> simp [hleaves, hconsole]
  · have hagrees : here.Agrees there := by
      apply executeLine_agrees (withConsole_alike hroom console other)
      intro hconsole hline
      exact hleaves ⟨hconsole, hline⟩
    rw [hagrees.files_eq, hagrees.env_eq]
    refine ⟨rfl, rfl, rfl, ?_⟩
    constructor
    · intro hne
      exact absurd rfl hne
    · rintro ⟨hline, hconsole, -⟩
      exact absurd ⟨hconsole, hline⟩ hleaves

/-- An `exit` that the console has no room for does not end the session. -/
theorem executeLine_unheard_exit :
    quiet.world.errors.room = none
      ∧ (executeLine .standard "exit" (quiet.withConsole (.blank none))).2.world.env.exiting
        ≠ (executeLine .standard "exit"
          (quiet.withConsole (.blank (some 0)))).2.world.env.exiting := by
  have hleaves : Line.Leaves "exit" :=
    ⟨"exit", [], .none, by decide, by decide +kernel, by decide +kernel⟩
  obtain ⟨-, -, -, hexiting⟩ :=
    @executeLine_unheard quiet rfl "exit" (.blank none) (.blank (some 0))
  refine ⟨rfl, hexiting.mpr ⟨hleaves, rfl, rfl, ?_⟩⟩
  decide +kernel

end Session

end LineShell
