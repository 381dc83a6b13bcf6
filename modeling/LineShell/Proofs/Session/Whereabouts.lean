/-
Where a session is.

Only verbs touch the environment; redirections, pipes and reports do not.  So a relation that no
step of a verb breaks holds between the environments in front of any line and behind it
(`Environment.Kept.behind`).

This is what keeps the current directory in order.  A session that starts in an upright directory,
with an upright home if any, stays in upright directories: `cd` goes home, or to a parent, or to
a normal form, and all of these are upright again (`Environment.Upright.kept`).  And from an upright
directory `cd ..` and `cd ../` are the same command, although the first works on the text of the
directory and the second on its components.
-/
import LineShell.Proofs.Path.Normal
import LineShell.Proofs.Session.Restoration
import LineShell.Proofs.Verbs.Environments
import LineShell.Proofs.Verbs.Reporting

set_option autoImplicit false

namespace LineShell

open LineShell.Text

/-! ## Relations that every line keeps -/

namespace Session

/-- The session behind some lines that were executed in it, in order. -/
def behind (table : VerbTable) (lines : List String) (s : Session) : Session :=
  lines.foldl (fun s line => (executeLine table line s).2) s

/-- A report of the shell leaves the environment alone. -/
theorem tell_leavesEnvironment (r : Report) : (tell r).LeavesEnvironment := by
  apply Action.LeavesEnvironment.bind
  · apply Action.LeavesEnvironment.ask
    intro env h
    exact nomatch h
  · intro _
    exact Action.LeavesEnvironment.sequential.pure ()

/-- A simple command makes at most one step, that of its verb. -/
theorem step_program (command : String) (w : World) :
    Environment.Step w ((program .standard command).run w).2.env := by
  have htell : ∀ r, Environment.Step w ((tell r).run w).2.env := by
    intro r
    rw [tell_leavesEnvironment r w]
    exact .stay
  unfold program
  split
  · exact .stay
  · rename_i verb words _
    split
    · exact htell _
    · rename_i handler hverb
      obtain ⟨b, hb, rfl⟩ := VerbTable.find?_standard hverb
      have hstep := Builtin.step_handler hb (verb :: words) w
      rw [Action.run_bind, Action.run_attempt]
      revert hstep
      rcases (b.handler (verb :: words)).run w with ⟨status | failure | message, u⟩
      · exact id
      · intro hstep
        have htold := tell_leavesEnvironment (.commandFailed verb failure) u
        simp only
        rw [htold]
        exact hstep
      · exact id

end Session

/-- A relation between environments that no verb breaks. -/
structure Environment.Kept (R : Environment → Environment → Prop) : Prop where
  refl : ∀ env, R env env
  trans : ∀ {a b c}, R a b → R b c → R a c
  step : ∀ {w env}, Environment.Step w env → R w.env env

namespace Environment.Kept

variable {R : Environment → Environment → Prop} (hR : Environment.Kept R)
include hR

/-- Around the verbs nothing happens to the environment. -/
theorem carried : World.Carried .standard fun before after => R before.env after.env where
  refl := fun w => hR.refl w.env
  trans := hR.trans
  run := fun command w => hR.step (Session.step_program command w)
  exchange := fun w _ _ => hR.refl w.env
  opened := by
    intro s opened path mode hopen
    obtain ⟨handle, files, -, rfl⟩ := Session.openOutput_cases hopen
    exact hR.refl s.world.env
  flushed := by
    intro s
    unfold Session.flushOutput
    split <;> exact hR.refl s.world.env
  voiced := fun w _ => hR.refl w.env

/-- No line breaks it, and so no number of lines. -/
theorem behind (lines : List String) (s : Session) :
    R s.world.env (Session.behind .standard lines s).world.env := by
  induction lines generalizing s with
  | nil => exact hR.refl _
  | cons line lines ih =>
    have hline := hR.carried.execute (Job.ofText line) s
    apply hR.trans hline
    exact ih _

end Environment.Kept

/-! ## Upright directories -/

/-- Wherever `cd` goes from directories with a stable property is such a directory. -/
theorem Path.Stable.destination {P : Path → Prop} (hP : Path.Stable P) {env : Environment}
    {operand : Option String} {dir : Path} (hcurrent : P env.currentDir)
    (hhome : ∀ dir, env.home = some dir → P dir)
    (hdir : Verbs.destination env operand = some dir) : P dir := by
  unfold Verbs.destination at hdir
  split at hdir
  · exact hhome dir hdir
  · split at hdir
    · injection hdir with hdir
      rw [← hdir]
      exact hP.parent hcurrent
    · injection hdir with hdir
      rw [← hdir]
      exact hP.normalize (Path.isAbsolute_join (hP.absolute hcurrent) _)

/-- The directories that an environment knows are upright. -/
structure Environment.Upright (env : Environment) : Prop where
  currentDir : env.currentDir.Upright
  home : ∀ dir, env.home = some dir → dir.Upright

namespace Environment.Upright

/-- No verb leaves the upright directories. -/
theorem kept : Environment.Kept fun before after => before.Upright → after.Upright where
  refl := fun _ => id
  trans := fun h h' => h' ∘ h
  step := by
    intro w env hstep h
    cases hstep with
    | stay => exact h
    | go hdir _ => exact ⟨Path.Upright.stable.destination h.currentDir h.home hdir, h.home⟩
    | leave => exact ⟨h.currentDir, h.home⟩

end Environment.Upright

/-! ## Going up -/

namespace Verbs

/-- `cd` depends on its operand only by where it leads. -/
theorem run_changeDirectory_congr {operand other : Option String} {w : World}
    (h : destination w.env operand = destination w.env other) :
    (changeDirectory operand).run w = (changeDirectory other).run w := by
  have henv : (Action.ask .environment).run w = (.done w.env, w) := rfl
  unfold changeDirectory
  rw [Action.run_bind, Action.run_bind, henv]
  simp only
  rw [h]

/-- A `cd` that ends with status 0 has gone where its operand leads. -/
theorem destination_of_done {operand : Option String} {w u : World}
    (h : (Builtin.reporting (changeDirectory operand)).run w = (.done 0, u)) :
    destination w.env operand = some u.env.currentDir := by
  have hbody := Builtin.run_of_run_reporting h (by decide)
  rcases run_changeDirectory_cases operand w with ⟨failure, hfailed⟩ | ⟨dir, hdir, -, henv⟩
  · rw [hbody] at hfailed
    simp at hfailed
  · rw [hbody] at henv
    simp only at henv
    rw [hdir, henv]

/-- `..`, as an operand. -/
def upOperand (marked : Bool) : String := if marked then "../" else ".."

/-- From an upright directory both spellings lead to the normal form of what is above it. -/
theorem destination_up {env : Environment} (h : env.currentDir.Upright) (marked : Bool) :
    destination env (some (upOperand marked))
      = some (env.currentDir.join (Path.ofString "..")).normalize := by
  cases marked with
  | false =>
    show some (env.currentDir.parent?.getD env.currentDir) = _
    rw [h.parent_eq false]
    rfl
  | true =>
    show some (env.currentDir.join (Path.ofString "../")).normalize = _
    rw [show (Path.ofString "../") = Path.upward true from rfl, ← h.parent_eq true,
      h.parent_eq false]
    rfl

end Verbs

namespace Session

/-- Going up, in a line. -/
def upLine (marked : Bool) : String := if marked then "cd ../" else "cd .."

/-- The line is the command `cd` with the one operand. -/
theorem executeLine_up (marked : Bool) (s : Session) :
    executeLine .standard (upLine marked) s
      = ({ s with status := 0 } : Session).runHandler
        (fun _ => Builtin.reporting (Verbs.changeDirectory (some (Verbs.upOperand marked))))
        "cd" [] := by
  have hjob : Job.ofText (upLine marked) = .simple (upLine marked) := by
    cases marked <;> decide +kernel
  have htokens : tokenize (upLine marked) = ["cd", Verbs.upOperand marked] := by
    cases marked <;> decide +kernel
  have hlists : Lists [Verbs.upOperand marked] [Verbs.upOperand marked] := by
    cases marked <;> exact ⟨by decide +kernel, by decide +kernel⟩
  have hfind : VerbTable.standard.find? "cd" = some Verbs.cd.handler := rfl
  have hhandler := @Builtin.handler_of_lists Verbs.cd rfl "cd" _ _ hlists
  rw [executeLine, hjob]
  show dispatch .standard (upLine marked) { s with status := 0 } = _
  unfold dispatch
  rw [htokens]
  simp only [hfind]
  unfold runHandler
  rw [hhandler]
  rfl

/-- The session behind some lines, of a session with upright directories: `cd ..` and `cd ../` do
the same there, and if they succeed, the current directory is the normal form of what was above
it. -/
theorem up_either_way {s : Session} (h : s.world.env.Upright) (lines : List String) :
    let reached := behind .standard lines s
    executeLine .standard "cd .." reached = executeLine .standard "cd ../" reached
      ∧ ((executeLine .standard "cd .." reached).2.status = 0 →
        (executeLine .standard "cd .." reached).2.world.env.currentDir
          = (reached.world.env.currentDir.join (Path.ofString "..")).normalize) := by
  intro reached
  have hupright : reached.world.env.Upright := Environment.Upright.kept.behind lines s h
  have hplain := Verbs.destination_up hupright.currentDir false
  have hmarked := Verbs.destination_up hupright.currentDir true
  have hrun := Verbs.run_changeDirectory_congr (hplain.trans hmarked.symm)
  constructor
  · show executeLine .standard (upLine false) reached = executeLine .standard (upLine true) reached
    rw [executeLine_up, executeLine_up, runHandler, runHandler, Builtin.run_reporting_congr hrun]
  · show (executeLine .standard (upLine false) reached).2.status = 0 →
      (executeLine .standard (upLine false) reached).2.world.env.currentDir = _
    have hcalm := (Action.Calm.composable.reporting (Action.Calm.composable.status.changeDirectory
      (fun _ => Action.Calm.ask _) (some (Verbs.upOperand false)))).run_ne_panicked reached.world
    rw [executeLine_up, runHandler]
    rcases hended : (Builtin.reporting (Verbs.changeDirectory
      (some (Verbs.upOperand false)))).run reached.world with ⟨status | failure | message, u⟩
    · intro hzero
      rw [show status = 0 from hzero] at hended
      have hdestination := (Verbs.destination_of_done hended).symm.trans hplain
      injection hdestination
    · intro hzero
      -- the shell itself has something to report
      have hone : (1 : Int) = 0 := hzero
      exact absurd hone (by decide)
    · rw [hended] at hcalm
      exact absurd rfl (hcalm message)

/-- A session in `dir`, on a volume with two directories, one in the other. -/
def nested (dir : String) : Session where
  world := {
    env := .startingIn (Path.ofString dir) (some (Path.ofString "/r"))
    files := .ofSeeds (.fresh (encode "r") []) [.directory (Path.ofString "/r/a/b")]
    console := .blank none
    errors := .blank none
    source := .ofBytes []
    output := .console
    input := .session
    respondent := .scripted []
    asked := [] }
  status := 0

/-- A session that starts in a directory with a slash behind its name, and goes one down. -/
theorem up_either_way_below :
    executeLine .standard "cd .." (behind .standard ["cd b"] (nested "/r/a/"))
        = executeLine .standard "cd ../" (behind .standard ["cd b"] (nested "/r/a/"))
      ∧ (executeLine .standard "cd .."
          (behind .standard ["cd b"] (nested "/r/a/"))).2.world.env.currentDir
        = Path.ofString "/r/a" := by
  have hhome : (Path.ofString "/r").Upright := .of_normal (by decide +kernel) (by decide +kernel)
  have hdir : (Path.ofString "/r/a/").Upright := by
    refine ⟨by decide +kernel, .inr ⟨by decide +kernel, ?_⟩⟩
    intro q hq
    have hparent : (Path.ofString "/r/a/").parent? = some (Path.ofString "/r") := by decide +kernel
    rw [hparent] at hq
    injection hq with hq
    rw [← hq]
    decide +kernel
  have hstart : (nested "/r/a/").world.env.Upright := by
    refine ⟨hdir, ?_⟩
    intro dir hhomeDir
    injection hhomeDir with heq
    rw [← heq]
    exact hhome
  obtain ⟨hsame, hup⟩ := up_either_way hstart ["cd b"]
  have hreached : (behind .standard ["cd b"] (nested "/r/a/")).world.env.currentDir
      = Path.ofString "/r/a/b" := by decide +kernel
  refine ⟨hsame, (hup (by decide +kernel)).trans ?_⟩
  rw [hreached]
  decide +kernel

/-- Where the current directory spells a detour, the two lines lead to two directories, and from `.`
only one of them leads anywhere. -/
theorem up_differs_behind_detour :
    (executeLine .standard "cd .." (nested "/r/a/..")).2.status = 0
      ∧ (executeLine .standard "cd ../" (nested "/r/a/..")).2.status = 0
      ∧ (executeLine .standard "cd .." (nested "/r/a/..")).2.world.env.currentDir
        = Path.ofString "/r/a"
      ∧ (executeLine .standard "cd ../" (nested "/r/a/..")).2.world.env.currentDir
        = Path.ofString "/"
      ∧ (executeLine .standard "cd .." (nested ".")).2.status = 1
      ∧ (executeLine .standard "cd ../" (nested ".")).2.status = 0 := by
  refine ⟨?_, ?_, ?_, ?_, ?_, ?_⟩ <;> decide +kernel

end Session

end LineShell
