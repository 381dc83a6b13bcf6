/-
What becomes of the environment.

Two verbs change it, `cd` and `exit`, and each of them in one way.  What the other verbs ask for
leaves it alone, and so do they.  A run of a built-in verb is therefore at most one step
(`Environment.Step`): to a directory that `cd` chooses and that is one at that moment, or to the end
of the session.

What holds of each step holds of each line.  A redirection and a pipe exchange streams around the
commands that they execute, and streams are no part of the environment.
-/
import LineShell.Proofs.Verbs.Parts

set_option autoImplicit false

namespace LineShell

open LineShell.Text

/-! ## Commands that leave the environment alone -/

theorem World.env_answer (w : World) {r : Request} (h : ∀ env, r ≠ .setEnvironment env) :
    (w.answer r).2.env = w.env := by
  cases r with
  | print data =>
    show (w.print data).2.env = w.env
    unfold World.print
    split <;> rfl
  | readUntil b =>
    show (w.readUntil b).2.env = w.env
    unfold World.readUntil
    split <;> rfl
  | confirm question =>
    show (w.confirm question).2.env = w.env
    unfold World.confirm
    rcases w.respondent with (_ | ⟨answer, answers⟩) | _ <;> rfl
  | setEnvironment env => exact absurd rfl (h env)
  | _ => rfl

namespace Action

variable {α β : Type} {m : Action α} {f : α → Action β}

/-- A command behind which the environment is what it was, whatever happens. -/
def LeavesEnvironment (a : Action α) : Prop := ∀ w, (a.run w).2.env = w.env

namespace LeavesEnvironment

theorem ask {r : Request} (h : ∀ env, r ≠ .setEnvironment env) :
    (Action.ask r).LeavesEnvironment := by
  intro w
  rw [run_ask]
  exact w.env_answer h

theorem bind (hm : m.LeavesEnvironment) (hf : ∀ a, (f a).LeavesEnvironment) :
    (m >>= f).LeavesEnvironment := by
  intro w
  have hfirst := hm w
  rw [run_bind]
  rcases hrun : m.run w with ⟨a | failure | message, u⟩
  · rw [hrun] at hfirst
    exact (hf a u).trans hfirst
  · rw [hrun] at hfirst
    exact hfirst
  · rw [hrun] at hfirst
    exact hfirst

theorem attempt (hm : m.LeavesEnvironment) : m.attempt.LeavesEnvironment := by
  intro w
  have hrun := hm w
  rw [run_attempt]
  revert hrun
  rcases m.run w with ⟨a | failure | message, u⟩ <;> exact id

theorem orGiveUp (result : Except IoError α) : (Action.orGiveUp result).LeavesEnvironment := by
  cases result with
  | error e => exact fun _ => rfl
  | ok a => exact fun _ => rfl

theorem sequential : Sequential fun _ => LeavesEnvironment where
  done := fun _ _ => rfl
  fail := fun _ _ => rfl
  bind := bind
  ask := fun _ _ _ h => ask h

/-- Everything but replacing the environment leaves it alone. -/
theorem composable : LineComposable fun _ => LeavesEnvironment where
  toLineSequential := sequential.lines fun _ => bind (ask fun _ => nofun) fun _ => orGiveUp _
  attempt := attempt
  voice := fun _ => ask fun _ => nofun

end LeavesEnvironment

end Action

/-! ## Steps of the environment -/

/-- What one verb can make of the environment of a world. -/
inductive Environment.Step (w : World) : Environment → Prop where
  | stay : Step w w.env
  /-- Into a directory that an operand of `cd` names, or that is home. -/
  | go {operand : Option String} {dir : Path} (hdir : Verbs.destination w.env operand = some dir)
      (hthere : w.files.isDirectory dir = true) : Step w { w.env with currentDir := dir }
  /-- Towards the end of the session. -/
  | leave : Step w { w.env with exiting := true }

namespace Verbs

open LineShell.Action

/-- Where its operand leads to a directory, `cd` goes there and says so. -/
theorem run_changeDirectory_of_there {operand : Option String} {w : World} {dir : Path}
    (hdir : destination w.env operand = some dir) (hthere : w.files.isDirectory dir = true) :
    (changeDirectory operand).run w
      = (Action.printLine ["Changed directory to: ", dir.display] >>=
          fun _ => (pure 0 : Action Int)).run
        { w with env := { w.env with currentDir := dir } } := by
  have henv : (Action.ask .environment).run w = (.done w.env, w) := rfl
  unfold changeDirectory
  rw [run_bind, henv]
  simp only [hdir]
  rw [run_bind, run_isDirectory, hthere]
  rfl

/-- `cd` gives up and leaves the environment alone, or it goes to a directory, and then nothing but
the current directory is replaced, whatever becomes of its message. -/
theorem run_changeDirectory_cases (operand : Option String) (w : World) :
    (∃ failure, (changeDirectory operand).run w = (.failed failure, w))
      ∨ ∃ dir, destination w.env operand = some dir ∧ w.files.isDirectory dir = true
        ∧ ((changeDirectory operand).run w).2.env = { w.env with currentDir := dir } := by
  have henv : (Action.ask .environment).run w = (.done w.env, w) := rfl
  cases hdir : destination w.env operand with
  | none =>
    left
    unfold changeDirectory
    rw [run_bind, henv]
    simp only [hdir]
    exact ⟨_, rfl⟩
  | some dir =>
    cases hthere : w.files.isDirectory dir with
    | false =>
      left
      unfold changeDirectory
      rw [run_bind, henv]
      simp only [hdir]
      rw [run_bind, run_isDirectory, hthere]
      exact ⟨_, rfl⟩
    | true =>
      have hprint := LeavesEnvironment.composable.printLine
        ["Changed directory to: ", dir.display]
      right
      refine ⟨dir, rfl, hthere, ?_⟩
      rw [run_changeDirectory_of_there hdir hthere]
      exact (hprint.bind fun _ => LeavesEnvironment.sequential.pure (0 : Int))
        { w with env := { w.env with currentDir := dir } }

theorem step_changeDirectory (operand : Option String) (w : World) :
    Environment.Step w ((changeDirectory operand).run w).2.env := by
  rcases run_changeDirectory_cases operand w with ⟨failure, hrun⟩ | ⟨dir, hdir, hthere, henv⟩
  · rw [hrun]
    exact .stay
  · rw [henv]
    exact .go hdir hthere

/-- `exit` says its farewell and then asks for the end of the session; it gives up in between if the
farewell is not taken. -/
theorem run_exit (args : Arguments) (w : World) :
    (exit.body args).run w =
      match w.print (encode "Exiting...\n") with
      | (.ok _, u) => (.done 0, { u with env := { u.env with exiting := true } })
      | (.error e, u) => (.failed (.io e), u) := by
  show (Action.print (encode "Exiting...\n") >>= fun _ =>
    Action.ask .environment >>= fun env =>
      Action.ask (.setEnvironment { env with exiting := true }) >>= fun _ => pure 0).run w = _
  rw [run_bind, run_print_eq]
  rcases w.print (encode "Exiting...\n") with ⟨e | ⟨⟩, u⟩ <;> rfl

/-- So the environment behind `exit` depends on the farewell, and on nothing else. -/
theorem run_exit_env (args : Arguments) (w : World) :
    ((exit.body args).run w).2.env
      = match (w.print (encode "Exiting...\n")).1 with
        | .ok _ => { w.env with exiting := true }
        | .error _ => w.env := by
  have hanswer : (w.print (encode "Exiting...\n")).2.env = w.env :=
    w.env_answer (r := .print (encode "Exiting...\n")) fun _ => nofun
  rw [run_exit]
  rcases hprinted : w.print (encode "Exiting...\n") with ⟨e | ⟨⟩, u⟩
  · rw [hprinted] at hanswer
    exact hanswer
  · rw [hprinted] at hanswer
    show { u.env with exiting := true } = { w.env with exiting := true }
    rw [hanswer]

theorem step_exit (args : Arguments) (w : World) :
    Environment.Step w ((exit.body args).run w).2.env := by
  rw [run_exit_env]
  split
  · exact .leave
  · exact .stay

end Verbs

/-! ## Verbs -/

namespace Builtin

open LineShell.Action

variable {b : Builtin}

/-- The verbs but `cd` and `exit` leave the environment alone. -/
theorem handler_leavesEnvironment (hb : b ∈ VerbTable.builtins) (hcd : b ≠ Verbs.cd)
    (hexit : b ≠ Verbs.exit) (tokens : List String) : (b.handler tokens).LeavesEnvironment := by
  apply handler_composed LeavesEnvironment.composable hb
  intro h
  exact absurd h (not_or.mpr ⟨hcd, hexit⟩)

/-- What becomes of the environment in a body, becomes of it in the command around the body. -/
theorem run_reporting_env (body : Action Int) (w : World) :
    ((reporting body).run w).2.env = (body.run w).2.env := by
  have hcomplain : ∀ failure : Failure,
      (complain failure.message >>= fun _ => (pure 1 : Action Int)).LeavesEnvironment := by
    intro failure
    apply LeavesEnvironment.bind (LeavesEnvironment.composable.complain _)
    intro _
    exact LeavesEnvironment.sequential.pure 1
  unfold reporting
  rw [run_bind, run_attempt]
  rcases body.run w with ⟨status | failure | message, u⟩
  · exact LeavesEnvironment.sequential.pure status u
  · exact hcomplain failure u
  · rfl

/-- Words that a verb does not admit change nothing. -/
theorem handler_cases (b : Builtin) (tokens : List String) :
    (∃ args, b.signature.read (flagsFirst tokens.tail) = .accepted args
        ∧ b.handler tokens = reporting (b.body args))
      ∨ (b.handler tokens).LeavesEnvironment := by
  unfold handler
  split
  · rename_i args hread
    exact .inl ⟨args, hread, rfl⟩
  · right
    apply LeavesEnvironment.bind (LeavesEnvironment.composable.printLine _)
    intro _
    exact LeavesEnvironment.sequential.pure 0
  · right
    apply LeavesEnvironment.bind (LeavesEnvironment.composable.complain _)
    intro _
    exact LeavesEnvironment.sequential.pure 1

/-- A run of a built-in verb makes at most one step. -/
theorem step_handler (hb : b ∈ VerbTable.builtins) (tokens : List String) (w : World) :
    Environment.Step w ((b.handler tokens).run w).2.env := by
  have hstay : (b.handler tokens).LeavesEnvironment →
      Environment.Step w ((b.handler tokens).run w).2.env := by
    intro h
    rw [h w]
    exact .stay
  by_cases hcd : b = Verbs.cd
  · subst hcd
    rcases Verbs.cd.handler_cases tokens with ⟨args, -, hhandler⟩ | hleaves
    · rw [hhandler, run_reporting_env]
      exact Verbs.step_changeDirectory _ w
    · exact hstay hleaves
  · by_cases hexit : b = Verbs.exit
    · subst hexit
      rcases Verbs.exit.handler_cases tokens with ⟨args, -, hhandler⟩ | hleaves
      · rw [hhandler, run_reporting_env]
        exact Verbs.step_exit args w
      · exact hstay hleaves
    · exact hstay (handler_leavesEnvironment hb hcd hexit tokens)

end Builtin

end LineShell
