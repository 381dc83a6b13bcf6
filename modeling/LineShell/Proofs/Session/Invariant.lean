/-
What no line of a session breaks.

Two verbs change the environment, and nothing around the verbs does.  So what becomes of it in a
line is told by the commands that the line runs: it is as before, or one of the commands was a `cd`
that found a directory, or an `exit`, and that one made its step (`Session.Stage.Changes`).  A pipe
runs two commands, but the second one is `cat`, so there is one step at most in every line.

The invariant follows by induction over the lines.  A property of paths that normal forms have and
that going up keeps (`Path.Stable`) is never lost by the current directory if home has it too; to
be absolute and one's own normal form is such a property, whether paths are compared by their
components or by their text.  A session that has been asked to end stays so, and home stays where
it is.
-/
import LineShell.Proofs.Session.Failures
import LineShell.Proofs.Session.Whereabouts

set_option autoImplicit false

namespace LineShell

open LineShell.Text

namespace Session

variable {s : Session} {added : List (String × Handler)}

/-! ## What a command makes of the environment -/

theorem runHandler_env (handler : Handler) (verb : String) (tokens : List String) (s : Session) :
    (s.runHandler handler verb tokens).2.world.env = ((handler tokens).run s.world).2.env := by
  rcases runHandler_cases handler verb tokens s with hworld | ⟨data, hworld⟩
  · rw [hworld]
  · rw [hworld]
    rfl

namespace Stage

variable {table : VerbTable} {x : Stage}

/-- A stage that runs a built-in verb, on arguments that the verb accepts. -/
structure Executes (x : Stage) (table : VerbTable) (b : Builtin) (args : Arguments) : Prop where
  registered : table.find? b.verb = some b.handler
  words : ∃ words, tokenize x.command = b.verb :: words
    ∧ b.signature.read (flagsFirst words) = .accepted args

/-- How a stage changes the environment that it finds. -/
inductive Changes (table : VerbTable) (x : Stage) : Environment → Prop where
  /-- By a `cd` into a directory that its operand names, or home, and that is one at that moment. -/
  | goes {args : Arguments} {dir : Path} (hruns : x.Executes table Verbs.cd args)
      (hdir : Verbs.destination x.before.world.env args.operands.head? = some dir)
      (hthere : x.before.world.files.isDirectory dir = true) :
      Changes table x { x.before.world.env with currentDir := dir }
  /-- By an `exit`. -/
  | leaves {args : Arguments} (hruns : x.Executes table Verbs.exit args) :
      Changes table x { x.before.world.env with exiting := true }

/-- A stage that changes the environment is a `cd` or an `exit`. -/
theorem Changes.verb {env : Environment} (h : x.Changes table env) :
    ∃ verb words, tokenize x.command = verb :: words ∧ (verb = "cd" ∨ verb = "exit") := by
  cases h with
  | goes hruns _ _ =>
    obtain ⟨words, htokens, -⟩ := hruns.words
    exact ⟨_, words, htokens, .inl rfl⟩
  | leaves hruns =>
    obtain ⟨words, htokens, -⟩ := hruns.words
    exact ⟨_, words, htokens, .inr rfl⟩

/-- The verbs of the shell change the environment by a `cd` or an `exit`. -/
theorem changes_of_builtin {b : Builtin} (hb : b ∈ VerbTable.builtins) {words : List String}
    (htokens : tokenize x.command = b.verb :: words)
    (hfound : table.find? b.verb = some b.handler) :
    ((b.handler (b.verb :: words)).run x.before.world).2.env = x.before.world.env
      ∨ x.Changes table ((b.handler (b.verb :: words)).run x.before.world).2.env := by
  rcases b.handler_cases (b.verb :: words) with ⟨args, hread, hhandler⟩ | hleaves
  · have hruns : x.Executes table b args := ⟨hfound, words, htokens, hread⟩
    by_cases hcd : b = Verbs.cd
    · subst hcd
      rw [hhandler, Builtin.run_reporting_env]
      rcases Verbs.run_changeDirectory_cases args.operands.head? x.before.world with
        ⟨failure, hrun⟩ | ⟨dir, hdir, hthere, henv⟩
      · left
        show ((Verbs.changeDirectory args.operands.head?).run x.before.world).2.env = _
        rw [hrun]
      · right
        show x.Changes table ((Verbs.changeDirectory args.operands.head?).run x.before.world).2.env
        rw [henv]
        exact .goes hruns hdir hthere
    · by_cases hexit : b = Verbs.exit
      · subst hexit
        rw [hhandler, Builtin.run_reporting_env, Verbs.run_exit_env]
        split
        · exact .inr (.leaves hruns)
        · exact .inl rfl
      · exact .inl (Builtin.handler_leavesEnvironment hb hcd hexit _ _)
  · exact .inl (hleaves _)

/-- A stage leaves the environment as it is, or it changes it by a `cd` or an `exit`. -/
theorem env_cases (hadded : ∀ e ∈ added, ∀ tokens, (e.2 tokens).LeavesEnvironment) (x : Stage) :
    (x.ran (VerbTable.extended added)).2.world.env = x.before.world.env
      ∨ x.Changes (VerbTable.extended added) (x.ran (VerbTable.extended added)).2.world.env := by
  rw [ran, dispatch]
  rcases htokens : tokenize x.command with _ | ⟨verb, words⟩
  · exact .inl rfl
  · rcases hfound : (VerbTable.extended added).find? verb with _ | handler
    · simp only [hfound]
      exact .inl rfl
    · simp only [hfound]
      rw [runHandler_env]
      rcases VerbTable.builtin_of_find?_extended hfound with hmem | ⟨b, hb, rfl, rfl⟩
      · exact .inl (hadded _ hmem _ _)
      · exact changes_of_builtin hb htokens hfound

end Stage

/-! ## What a line makes of the environment -/

theorem flushOutput_env (s : Session) : s.flushOutput.2.world.env = s.world.env := by
  unfold flushOutput
  split <;> rfl

/-- Around its inner part a redirection does nothing to the environment. -/
theorem redirect_env {inner : Session → Ending × Session} {target : String} {mode : Redirection}
    {opened : Session} (hopen : s.openOutput (s.world.env.locate target) mode = .ok opened) :
    (redirect inner target mode s).2.world.env = (inner opened).2.world.env := by
  rw [redirect_of_opened hopen, ← flushOutput_env (inner opened).2]
  simp only
  split <;> rfl

/-- Behind its left side a pipe does nothing to the environment: the one verb that it runs there is
`cat`. -/
theorem pipe_env (hadded : ∀ e ∈ added, ∀ tokens, (e.2 tokens).LeavesEnvironment)
    (inner : Session → Ending × Session) (right : String) (s : Session) :
    (pipe (VerbTable.extended added) inner right s).2.world.env
      = (inner (s.withOutput (.capture .empty))).2.world.env := by
  rcases hended : (inner (s.withOutput (.capture .empty))).1 with _ | message
  · rw [pipe_of_returned hended]
    simp only
    split
    · rename_i hcat
      generalize (inner (s.withOutput (.capture .empty))).2 = after
      rcases Stage.env_cases hadded
          ⟨right, (after.withOutput s.world.output).withInput (.memory ⟨after.captured⟩)⟩ with
        hsame | hchanges
      · exact hsame
      · obtain ⟨verb, words, htokens, hverb⟩ := hchanges.verb
        simp only [hcat, List.cons.injEq] at htokens
        rw [← htokens.1] at hverb
        exact absurd hverb (by decide)
    · rfl
  · rw [pipe_of_unwound hended]
    rfl

/-- A line leaves the environment as it is, or one of its stages finds it as the line does and makes
of it what is there behind the line. -/
theorem execute_env_cases (hadded : ∀ e ∈ added, ∀ tokens, (e.2 tokens).LeavesEnvironment)
    (job : Job) (s : Session) :
    (execute (VerbTable.extended added) job s).2.world.env = s.world.env
      ∨ ∃ x ∈ stages (VerbTable.extended added) job s, x.before.world.env = s.world.env
        ∧ x.Changes (VerbTable.extended added)
          (execute (VerbTable.extended added) job s).2.world.env := by
  induction job generalizing s with
  | blank => exact .inl rfl
  | malformed e => exact .inl rfl
  | simple command =>
    rcases Stage.env_cases hadded ⟨command, { s with status := 0 }⟩ with hsame | hchanges
    · exact .inl hsame
    · exact .inr ⟨_, List.mem_cons_self, rfl, hchanges⟩
  | redirect job target mode ih =>
    rw [execute, stages_redirect]
    rcases hopen : { s with status := 0 }.openOutput (s.world.env.locate target) mode with
      e | opened
    · rw [redirect_of_error hopen]
      exact .inl rfl
    · have hopened : opened.world.env = s.world.env := by
        obtain ⟨handle, files, -, rfl⟩ := openOutput_cases hopen
        rfl
      rw [redirect_env hopen, hopen, ← hopened]
      exact ih opened
  | pipe left right ih =>
    rw [execute, pipe_env hadded]
    rcases ih ({ s with status := 0 }.withOutput (.capture .empty)) with hsame | ⟨x, hx, hchanges⟩
    · exact .inl hsame
    · exact .inr ⟨x, List.mem_append_left _ hx, hchanges⟩

end Session

/-! ## What a run makes of the environment -/

/-- The directories that an environment knows have a property. -/
structure Environment.Knows (env : Environment) (P : Path → Prop) : Prop where
  currentDir : P env.currentDir
  home : ∀ dir, env.home = some dir → P dir

namespace Session

variable {s : Session} {added : List (String × Handler)} {P : Path → Prop}

namespace Stage.Changes

variable {table : VerbTable} {x : Stage} {env : Environment} (h : x.Changes table env)
include h

/-- A change by a stage keeps to paths with a stable property. -/
theorem knows (hP : Path.Stable P) (hbefore : x.before.world.env.Knows P) : env.Knows P := by
  cases h with
  | goes hruns hdir hthere =>
    exact ⟨hP.destination hbefore.currentDir hbefore.home hdir, hbefore.home⟩
  | leaves hruns => exact ⟨hbefore.currentDir, hbefore.home⟩

theorem home : env.home = x.before.world.env.home := by
  cases h <;> rfl

/-- Another current directory is where a `cd` went. -/
theorem goes_of_ne (hne : env.currentDir ≠ x.before.world.env.currentDir) :
    ∃ args, x.Executes table Verbs.cd args
      ∧ Verbs.destination x.before.world.env args.operands.head? = some env.currentDir
      ∧ x.before.world.files.isDirectory env.currentDir = true := by
  cases h with
  | goes hruns hdir hthere => exact ⟨_, hruns, hdir, hthere⟩
  | leaves hruns => exact absurd rfl hne

theorem exiting (hbefore : x.before.world.env.exiting = true) : env.exiting = true := by
  cases h with
  | goes hruns hdir hthere => exact hbefore
  | leaves hruns => rfl

/-- A request to end that was not there before is that of an `exit`. -/
theorem leaves_of_exiting (hbefore : x.before.world.env.exiting = false)
    (hafter : env.exiting = true) : ∃ args, x.Executes table Verbs.exit args := by
  cases h with
  | goes hruns hdir hthere =>
    rw [hbefore] at hafter
    exact Bool.noConfusion hafter
  | leaves hruns => exact ⟨_, hruns⟩

end Stage.Changes

/-- What a line does to the environment: nothing, or what one of its stages does. -/
theorem env_cases_of_mem_trace
    (hadded : ∀ e ∈ added, ∀ tokens, (e.2 tokens).LeavesEnvironment) {lines : List String}
    {x : Executed} (hx : x ∈ trace (VerbTable.extended added) lines s) :
    x.after.world.env = x.before.world.env
      ∨ ∃ y ∈ stages (VerbTable.extended added) (Job.ofText x.line) x.before,
        y.before.world.env = x.before.world.env
          ∧ y.Changes (VerbTable.extended added) x.after.world.env := by
  obtain ⟨-, -, -, hafter⟩ := mem_trace hx
  rw [hafter]
  exact execute_env_cases hadded (Job.ofText x.line) x.before

/-- What holds of the environment in the beginning, and what no line breaks, holds in front of every
line of a run and behind it. -/
theorem trace_invariant {table : VerbTable} {I : Environment → Prop}
    (hline : ∀ (line : String) (s : Session), I s.world.env →
      I (executeLine table line s).2.world.env)
    {lines : List String} (hbegin : I s.world.env) {x : Executed} (hx : x ∈ trace table lines s) :
    I x.before.world.env ∧ I x.after.world.env := by
  induction lines generalizing s with
  | nil => exact nomatch hx
  | cons line lines ih =>
    have hafter := hline line s hbegin
    rcases List.mem_cons.mp hx with rfl | hx
    · exact ⟨hbegin, hafter⟩
    · exact ih hafter hx

theorem executeLine_knows (hadded : ∀ e ∈ added, ∀ tokens, (e.2 tokens).LeavesEnvironment)
    (hP : Path.Stable P) (line : String) (s : Session) (h : s.world.env.Knows P) :
    (executeLine (VerbTable.extended added) line s).2.world.env.Knows P := by
  rcases execute_env_cases hadded (Job.ofText line) s with hsame | ⟨y, hy, hbefore, hchanges⟩
  · rw [executeLine, hsame]
    exact h
  · exact hchanges.knows hP (by rw [hbefore]; exact h)

theorem executeLine_home (hadded : ∀ e ∈ added, ∀ tokens, (e.2 tokens).LeavesEnvironment)
    (line : String) (s : Session) :
    (executeLine (VerbTable.extended added) line s).2.world.env.home = s.world.env.home := by
  rcases execute_env_cases hadded (Job.ofText line) s with hsame | ⟨y, hy, hbefore, hchanges⟩
  · rw [executeLine, hsame]
  · rw [← hbefore]
    exact hchanges.home

/-- In a session whose current directory and home are absolute and normal, with registered handlers
that leave the environment alone, this holds behind every line of every run.  The current directory
and home are absolute and normal, and spelled so if they were in the beginning.  The current
directory is what it was in front of the line unless the line ran a `cd` whose destination was a
directory at that moment, and then it is that destination.  Home is what it was in the beginning.
And the request to end stays, and it was made by a line that ran an `exit`. -/
theorem trace_environment (hadded : ∀ e ∈ added, ∀ tokens, (e.2 tokens).LeavesEnvironment)
    (hdir : s.world.env.currentDir.IsNormal)
    (hhome : ∀ home, s.world.env.home = some home → home.IsNormal) {lines : List String}
    {x : Executed} (hx : x ∈ trace (VerbTable.extended added) lines s) :
    x.after.world.env.currentDir.IsNormal
      ∧ (∀ home, x.after.world.env.home = some home → home.IsNormal)
      ∧ (s.world.env.currentDir.normalize = s.world.env.currentDir →
          (∀ home, s.world.env.home = some home → home.normalize = home) →
          x.after.world.env.currentDir.normalize = x.after.world.env.currentDir)
      ∧ (x.after.world.env.currentDir ≠ x.before.world.env.currentDir →
          ∃ y ∈ stages (VerbTable.extended added) (Job.ofText x.line) x.before,
            ∃ args, y.Executes (VerbTable.extended added) Verbs.cd args
              ∧ Verbs.destination y.before.world.env args.operands.head?
                = some x.after.world.env.currentDir
              ∧ y.before.world.files.isDirectory x.after.world.env.currentDir = true)
      ∧ x.after.world.env.home = s.world.env.home
      ∧ (x.before.world.env.exiting = true → x.after.world.env.exiting = true)
      ∧ (x.before.world.env.exiting = false → x.after.world.env.exiting = true →
          ∃ y ∈ stages (VerbTable.extended added) (Job.ofText x.line) x.before,
            ∃ args, y.Executes (VerbTable.extended added) Verbs.exit args) := by
  have hnormal : s.world.env.Knows Path.IsNormal := ⟨hdir, hhome⟩
  have hknows := (trace_invariant (I := fun env => env.Knows Path.IsNormal)
    (executeLine_knows hadded Path.IsNormal.stable) hnormal hx).2
  have hstays : x.after.world.env.home = s.world.env.home := by
    apply (trace_invariant (I := fun env => env.home = s.world.env.home) _ rfl hx).2
    intro line s' h
    exact (executeLine_home hadded line s').trans h
  have hcases := env_cases_of_mem_trace hadded hx
  refine ⟨hknows.currentDir, hknows.home, ?_, ?_, hstays, ?_, ?_⟩
  · intro hspelled hspelledHome
    have hbegin : s.world.env.Knows fun p => p.isAbsolute = true ∧ p.normalize = p := by
      refine ⟨⟨hdir.absolute, hspelled⟩, ?_⟩
      intro home hset
      exact ⟨(hhome home hset).absolute, hspelledHome home hset⟩
    have hspells := (trace_invariant (I := fun env => env.Knows _)
      (executeLine_knows hadded Path.stable_normalize_eq) hbegin hx).2
    exact hspells.currentDir.2
  · intro hmoved
    rcases hcases with hsame | ⟨y, hy, hbefore, hchanges⟩
    · exact absurd (congrArg Environment.currentDir hsame) hmoved
    · rw [← hbefore] at hmoved
      obtain ⟨args, hwent⟩ := hchanges.goes_of_ne hmoved
      exact ⟨y, hy, args, hwent⟩
  · intro hexiting
    rcases hcases with hsame | ⟨y, hy, hbefore, hchanges⟩
    · rw [hsame]
      exact hexiting
    · rw [← hbefore] at hexiting
      exact hchanges.exiting hexiting
  · intro hrunning hexiting
    rcases hcases with hsame | ⟨y, hy, hbefore, hchanges⟩
    · rw [hsame, hrunning] at hexiting
      exact Bool.noConfusion hexiting
    · rw [← hbefore] at hrunning
      obtain ⟨args, hleft⟩ := hchanges.leaves_of_exiting hrunning hexiting
      exact ⟨y, hy, args, hleft⟩

/-- A line that goes to another directory and whose output is redirected, behind a line with a
registered handler that breaks off. -/
theorem trace_environment_redirected :
    (∀ e ∈ [("break", breaking)], ∀ tokens, (e.2 tokens).LeavesEnvironment)
      ∧ (nested "/r/a/").world.env.currentDir.IsNormal
      ∧ ∃ x ∈ trace (VerbTable.extended [("break", breaking)]) ["break", "cd b > f", "exit | cat"]
          (nested "/r/a/"),
        x.line = "cd b > f" ∧ x.before.world.env.currentDir = Path.ofString "/r/a/"
          ∧ x.after.world.env.currentDir = Path.ofString "/r/a/b"
          ∧ x.after.world.env.currentDir.IsNormal
          ∧ x.after.world.env.home = some (Path.ofString "/r")
          ∧ ∃ y ∈ stages (VerbTable.extended [("break", breaking)]) (Job.ofText x.line) x.before,
            ∃ args, y.Executes (VerbTable.extended [("break", breaking)]) Verbs.cd args := by
  have hadded : ∀ e ∈ [("break", breaking)], ∀ tokens, (e.2 tokens).LeavesEnvironment := by
    intro e he tokens
    rw [List.mem_singleton.mp he]
    have hprint : (Action.print (encode "one")).LeavesEnvironment :=
      .bind (.ask fun _ => nofun) fun _ => .orGiveUp _
    exact hprint.bind fun _ _ => rfl
  have hdir : (nested "/r/a/").world.env.currentDir.IsNormal :=
    ⟨by decide +kernel, by decide +kernel⟩
  have hhome : ∀ home, (nested "/r/a/").world.env.home = some home → home.IsNormal := by
    intro home hset
    injection hset with heq
    rw [← heq]
    exact ⟨by decide +kernel, by decide +kernel⟩
  obtain ⟨hnormal, -, -, hmoved, hstays, -⟩ := @trace_environment (nested "/r/a/")
    [("break", breaking)] hadded hdir hhome ["break", "cd b > f", "exit | cat"] _
    (List.mem_cons_of_mem _ List.mem_cons_self)
  obtain ⟨y, hy, args, hruns, -⟩ := hmoved (by decide +kernel)
  refine ⟨hadded, hdir, _, List.mem_cons_of_mem _ List.mem_cons_self, rfl, by decide +kernel,
    by decide +kernel, hnormal, hstays, y, hy, args, hruns⟩

end Session

end LineShell
