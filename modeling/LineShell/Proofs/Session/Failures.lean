/-
No failure is silent.

Whatever fails while a line is executed ends in a status, and with the standard table the status is
1 only behind a message on the error stream.  A message is a text that ends in a newline.  This
holds for the line and for each command that it runs, its *stages*, and the argument is the same at
each level: nothing gives the status 1 without a message, and nothing takes a message back.

The invariant speaks of the last part of a job, since it is the last part that decides the status: a
job ends with 0 and its last part in silence, or with 1 and a message of its last part
(`execute_settles`).
-/
import LineShell.Proofs.Session.Restoration
import LineShell.Proofs.Verbs.Statuses

set_option autoImplicit false

namespace LineShell

open LineShell.Text

/-! ## Messages -/

namespace World

variable {u v w : World}

/-- Between two worlds the error stream has got whole lines, or nothing. -/
def Voices (u v : World) : Prop :=
  ∃ data, v.errors = u.errors.append data ∧ EndsLine data

/-- Between two worlds the error stream has got a message that ends in a newline. -/
def Complains (u v : World) : Prop :=
  ∃ message, v.errors = u.errors.append message ∧ message.getLast? = some newline

theorem Voices.of_eq (h : v.errors = u.errors) : u.Voices v :=
  ⟨[], by rw [h, Console.append_nil], .inl rfl⟩

theorem Voices.trans (huv : u.Voices v) (hvw : v.Voices w) : u.Voices w := by
  obtain ⟨first, hv, hfirst⟩ := huv
  obtain ⟨second, hw, hsecond⟩ := hvw
  exact ⟨first ++ second, by rw [hw, hv, Console.append_append], hfirst.append hsecond⟩

theorem Voices.room (h : u.Voices v) (hroom : u.errors.room = none) : v.errors.room = none := by
  obtain ⟨data, hv, -⟩ := h
  rw [hv]
  exact hroom

namespace Complains

theorem voices (h : u.Complains v) : u.Voices v := by
  obtain ⟨message, hv, hmessage⟩ := h
  exact ⟨message, hv, .inr hmessage⟩

theorem errors_ne (h : u.Complains v) : v.errors ≠ u.errors := by
  obtain ⟨message, hv, hmessage⟩ := h
  intro heq
  rw [hv] at heq
  have hnil : message = [] := by
    simpa [Console.append, Console.bytes] using congrArg Console.bytes heq
  rw [hnil, List.getLast?_nil] at hmessage
  exact Option.some_ne_none newline hmessage.symm

end Complains

/-- Behind other lines a message is still a message. -/
theorem Voices.andComplains (huv : u.Voices v) (hvw : v.Complains w) : u.Complains w := by
  obtain ⟨data, hv, -⟩ := huv
  obtain ⟨message, hw, hmessage⟩ := hvw
  refine ⟨data ++ message, by rw [hw, hv, Console.append_append], ?_⟩
  rw [List.getLast?_append, hmessage]
  rfl

end World

namespace Session

variable {s : Session} {command line target right : String} {mode : Redirection}

/-! ## Commands -/

/-- What was done since the world `begun`: it returned, with status 0 and in silence, or with status
1 and a message. -/
structure Settles (begun : World) (ran : Ending × Session) : Prop where
  returned : ran.1 = .returned
  status : (ran.2.status = 0 ∧ ran.2.world.errors = begun.errors)
    ∨ (ran.2.status = 1 ∧ begun.Complains ran.2.world)

/-- Only the errors and the status matter. -/
theorem Settles.of_eq {begun start : World} {ran later : Ending × Session}
    (h : Settles begun ran) (hstart : start.errors = begun.errors)
    (hreturned : later.1 = ran.1) (hstatus : later.2.status = ran.2.status)
    (herrors : later.2.world.errors = ran.2.world.errors) : Settles start later := by
  refine ⟨hreturned.trans h.returned, ?_⟩
  rw [hstatus, herrors, hstart, World.Complains, herrors, hstart]
  exact h.status

theorem Settles.voices {begun : World} {ran : Ending × Session} (h : Settles begun ran) :
    begun.Voices ran.2.world := by
  rcases h.status with ⟨-, herrors⟩ | ⟨-, hcomplains⟩
  · exact .of_eq herrors
  · exact hcomplains.voices

theorem Settles.status_ne_zero_iff {begun : World} {ran : Ending × Session}
    (h : Settles begun ran) : ran.2.status ≠ 0 ↔ ran.2.world.errors ≠ begun.errors := by
  rcases h.status with ⟨hstatus, herrors⟩ | ⟨hstatus, hcomplains⟩
  · exact ⟨fun hne => absurd hstatus hne, fun hne => absurd herrors hne⟩
  · exact ⟨fun _ => hcomplains.errors_ne, fun _ => by rw [hstatus]; decide⟩

theorem complains_report (hroom : s.world.errors.room = none) (r : Report) :
    s.world.Complains (s.report r).world := by
  refine ⟨encode r.message ++ [newline], ?_, by rw [List.getLast?_append]; rfl⟩
  rw [report, World.complain, Console.write_eq_append hroom]

theorem voiced_tell_ne_nil (r : Report) (w : World) : (tell r).voiced w ≠ [] :=
  List.append_ne_nil_of_left_ne_nil
    (List.append_ne_nil_of_right_ne_nil _ (List.cons_ne_nil newline [])) _

/-- With the standard table a simple command ends with 0 and without trouble, or with 1 and a
complaint. -/
theorem dispatch_standard_cases (h : s.status = 0 ∨ tokenize command ≠ []) :
    (dispatch .standard command s).1 = .returned
      ∧ (((dispatch .standard command s).2.status = 0
            ∧ (program .standard command).Untroubled s.world)
        ∨ ((dispatch .standard command s).2.status = 1
            ∧ (program .standard command).voiced s.world ≠ [])) := by
  rcases htokens : tokenize command with _ | ⟨verb, words⟩
  · rw [dispatch, program, htokens]
    exact ⟨rfl, .inl ⟨h.resolve_right (absurd htokens), .pure () s.world⟩⟩
  · rw [program, htokens]
    rcases hverb : VerbTable.standard.find? verb with _ | handler
    · rw [dispatch, htokens]
      simp only [hverb]
      exact ⟨trivial, .inr ⟨rfl, voiced_tell_ne_nil _ _⟩⟩
    · obtain ⟨b, hb, rfl⟩ := VerbTable.find?_standard hverb
      rw [dispatch_of_find? htokens hverb, runHandler]
      simp only [hverb]
      have hcalm := (Builtin.handler_calm hb (verb :: words)).run_ne_panicked s.world
      have haccounts := Builtin.handler_accounts hb (verb :: words) s.world
      have hattempt := (b.handler (verb :: words)).run_attempt s.world
      rcases hrun : (b.handler (verb :: words)).run s.world with ⟨status | failure | message, u⟩
      · rw [hrun] at hattempt
        refine ⟨rfl, ?_⟩
        rcases haccounts status u hrun with ⟨hstatus, hclean⟩ | ⟨hstatus, hvoiced⟩
        · exact .inl ⟨hstatus, (Action.untroubled_attempt.mpr hclean).bind hattempt (.pure () u)⟩
        · refine .inr ⟨hstatus, Action.voiced_ne_nil_of_left hattempt ?_⟩
          rwa [Action.voiced, Action.record_attempt]
      · rw [hrun] at hattempt
        exact ⟨rfl, .inr ⟨rfl, Action.voiced_ne_nil_of_right hattempt (voiced_tell_ne_nil _ _)⟩⟩
      · rw [hrun] at hcalm
        exact absurd rfl (hcalm message)

theorem dispatch_settles (hroom : s.world.errors.room = none)
    (h : s.status = 0 ∨ tokenize command ≠ []) :
    Settles s.world (dispatch .standard command s) := by
  obtain ⟨hreturned, hcases⟩ := dispatch_standard_cases h
  have herrors := (program .standard command).run_errors hroom
  rw [← (dispatch_eq_run command s).2] at herrors
  refine ⟨hreturned, ?_⟩
  rcases hcases with ⟨hstatus, -, hvoiced⟩ | ⟨hstatus, hvoiced⟩
  · exact .inl ⟨hstatus, by rw [herrors, hvoiced, Console.append_nil]⟩
  · have hlines := program_composed Action.VoicesLines.composable (fun _ _ => .inl rfl) command s.world
    exact .inr ⟨hstatus, _, herrors, hlines.resolve_left hvoiced⟩

/-! ## Lines -/

/-- The world in which the last part of a job begins: behind the left side of a pipe, and inside a
redirection. -/
def lastBegun (table : VerbTable) : Job → Session → World
  | .redirect job target mode, s =>
    match { s with status := 0 }.openOutput (s.world.env.locate target) mode with
    | .error _ => s.world
    | .ok opened => lastBegun table job opened
  | .pipe left _, s =>
    (execute table left ({ s with status := 0 }.withOutput (.capture .empty))).2.world
  | _, s => s.world

theorem lastBegun_redirect (table : VerbTable) (job : Job) (s : Session) :
    lastBegun table (.redirect job target mode) s =
      match { s with status := 0 }.openOutput (s.world.env.locate target) mode with
      | .error _ => s.world
      | .ok opened => lastBegun table job opened := (rfl)

theorem flushOutput_errors (s : Session) :
    s.flushOutput.2.world.errors = s.world.errors ∧ s.flushOutput.2.status = s.status := by
  unfold flushOutput
  split <;> exact ⟨rfl, rfl⟩

/-- A redirection ends as its inner part does, unless the sink cannot be emptied. -/
theorem redirect_settles {inner : Session → Ending × Session} {opened : Session} {begun : World}
    (hopen : s.openOutput (s.world.env.locate target) mode = .ok opened)
    (hroom : begun.errors.room = none) (hinner : Settles begun (inner opened)) :
    Settles begun (redirect inner target mode s) := by
  obtain ⟨hflushErrors, hflushStatus⟩ := flushOutput_errors (inner opened).2
  rw [redirect_of_opened hopen, hinner.returned]
  generalize (inner opened).2.flushOutput = flushed at hflushErrors hflushStatus ⊢
  rcases flushed with ⟨e | _, after⟩
  · -- what was complained about before is still there
    have hvoices : begun.Voices after.world := hinner.voices.trans (.of_eq hflushErrors)
    have hreport := @complains_report (after.withOutput s.world.output) (hvoices.room hroom)
      (.unwritable target e)
    exact ⟨rfl, .inr ⟨rfl, hvoices.andComplains hreport⟩⟩
  · exact hinner.of_eq rfl hinner.returned.symm hflushStatus hflushErrors

/-- Every job ends with 0 and its last part in silence, or with 1 and a message. -/
theorem execute_settles (job : Job) {s : Session} (hroom : s.world.errors.room = none) :
    s.world.Voices (lastBegun .standard job s)
      ∧ Settles (lastBegun .standard job s) (execute .standard job s) := by
  induction job generalizing s with
  | blank => exact ⟨.of_eq rfl, rfl, .inl ⟨rfl, rfl⟩⟩
  | malformed e =>
    exact ⟨.of_eq rfl, rfl, .inr ⟨rfl, @complains_report { s with status := 0 } hroom _⟩⟩
  | simple command =>
    exact ⟨.of_eq rfl, @dispatch_settles { s with status := 0 } command hroom (.inl rfl)⟩
  | redirect job target mode ih =>
    rcases hopen : { s with status := 0 }.openOutput (s.world.env.locate target) mode with
      e | opened
    · rw [lastBegun_redirect, execute, redirect_of_error hopen, hopen]
      exact ⟨.of_eq rfl, rfl, .inr ⟨rfl, @complains_report { s with status := 0 } hroom _⟩⟩
    · have hopened : opened.world.errors = s.world.errors := by
        obtain ⟨handle, files, -, rfl⟩ := openOutput_cases hopen
        rfl
      obtain ⟨hvoices, hsettles⟩ := @ih opened (by rw [hopened]; exact hroom)
      rw [lastBegun_redirect, hopen]
      have hbefore : s.world.Voices opened.world := .of_eq hopened
      have hbegun := hbefore.trans hvoices
      exact ⟨hbegun, redirect_settles hopen (hbegun.room hroom) hsettles⟩
  | pipe left right ih =>
    obtain ⟨hvoices, hleft⟩ := @ih ({ s with status := 0 }.withOutput (.capture .empty)) hroom
    have hbegun : s.world.Voices (lastBegun .standard (.pipe left right) s) :=
      hvoices.trans hleft.voices
    refine ⟨hbegun, ?_⟩
    rw [execute, pipe_of_returned hleft.returned]
    have hafter := hbegun.room hroom
    change (execute .standard left
      ({ s with status := 0 }.withOutput (.capture .empty))).2.world.errors.room = none at hafter
    show Settles (execute .standard left
      ({ s with status := 0 }.withOutput (.capture .empty))).2.world _
    generalize (execute .standard left
      ({ s with status := 0 }.withOutput (.capture .empty))).2 = after at hafter ⊢
    by_cases hcat : tokenize right = ["cat"]
    · have hright := @dispatch_settles
        ((after.withOutput s.world.output).withInput (.memory ⟨after.captured⟩)) right hafter
        (.inr (by rw [hcat]; exact List.cons_ne_nil _ _))
      simp only [if_pos hcat]
      generalize dispatch .standard right _ = ran at hright ⊢
      exact hright.of_eq rfl rfl rfl rfl
    · simp only [if_neg hcat]
      exact ⟨rfl, .inr ⟨rfl, @complains_report (after.withOutput s.world.output) hafter _⟩⟩

/-! ## The commands of a line -/

/-- A simple command, and the session that it finds. -/
structure Stage where
  command : String
  before : Session

namespace Stage

/-- What becomes of the session. -/
def ran (x : Stage) (table : VerbTable) : Ending × Session := dispatch table x.command x.before

end Stage

/-- The simple commands that are executed for a job, in order. -/
def stages (table : VerbTable) : Job → Session → List Stage
  | .blank, _ => []
  | .malformed _, _ => []
  | .simple command, s => [⟨command, { s with status := 0 }⟩]
  | .redirect job target mode, s =>
    match { s with status := 0 }.openOutput (s.world.env.locate target) mode with
    | .error _ => []
    | .ok opened => stages table job opened
  | .pipe left right, s =>
    let begun := { s with status := 0 }.withOutput (.capture .empty)
    let after := (execute table left begun).2
    stages table left begun ++
      if (execute table left begun).1 = .returned ∧ tokenize right = ["cat"] then
        [⟨right, (after.withOutput s.world.output).withInput (.memory ⟨after.captured⟩)⟩]
      else []

theorem stages_redirect (table : VerbTable) (job : Job) (s : Session) :
    stages table (.redirect job target mode) s =
      match { s with status := 0 }.openOutput (s.world.env.locate target) mode with
      | .error _ => []
      | .ok opened => stages table job opened := (rfl)

/-- Nothing but its stages decides what a job does: where another table treats them alike, it
treats the job alike. -/
theorem execute_congr {table other : VerbTable} {job : Job} {s : Session}
    (h : ∀ x ∈ stages table job s, x.ran other = x.ran table) :
    execute other job s = execute table job s := by
  induction job generalizing s with
  | blank => rfl
  | malformed e => rfl
  | simple command => exact h ⟨command, { s with status := 0 }⟩ List.mem_cons_self
  | redirect job target mode ih =>
    rw [stages_redirect] at h
    rw [execute, execute]
    rcases hopen : { s with status := 0 }.openOutput (s.world.env.locate target) mode with
      e | opened
    · rw [redirect_of_error hopen, redirect_of_error hopen]
    · rw [hopen] at h
      rw [redirect_of_opened hopen, redirect_of_opened hopen, @ih opened h]
  | pipe left right ih =>
    have hleft := @ih ({ s with status := 0 }.withOutput (.capture .empty))
      fun x hx => h x (List.mem_append_left _ hx)
    rw [execute, execute]
    rcases hended : (execute table left ({ s with status := 0 }.withOutput (.capture .empty))).1
      with _ | message
    · rw [pipe_of_returned (by rw [hleft]; exact hended), pipe_of_returned hended, hleft]
      by_cases hcat : tokenize right = ["cat"]
      · have hright := h _ (List.mem_append_right _ (by
          rw [if_pos ⟨hended, hcat⟩]
          exact List.mem_cons_self))
        rw [Stage.ran, Stage.ran] at hright
        simp only [if_pos hcat, hright]
      · simp only [if_neg hcat]
    · rw [pipe_of_unwound (by rw [hleft]; exact hended), pipe_of_unwound hended, hleft]

/-- Every stage finds an error stream that takes everything, if the line does. -/
theorem stage_begins {job : Job} {s : Session} (hroom : s.world.errors.room = none) {x : Stage}
    (hx : x ∈ stages .standard job s) :
    x.before.world.errors.room = none ∧ (x.before.status = 0 ∨ tokenize x.command ≠ []) := by
  induction job generalizing s with
  | blank => exact nomatch hx
  | malformed e => exact nomatch hx
  | simple command =>
    rw [List.mem_singleton.mp hx]
    exact ⟨hroom, .inl rfl⟩
  | redirect job target mode ih =>
    rw [stages_redirect] at hx
    rcases hopen : { s with status := 0 }.openOutput (s.world.env.locate target) mode with
      e | opened
    · rw [hopen] at hx
      exact nomatch hx
    · rw [hopen] at hx
      refine @ih opened ?_ hx
      obtain ⟨handle, files, -, rfl⟩ := openOutput_cases hopen
      exact hroom
  | pipe left right ih =>
    rcases List.mem_append.mp hx with hx | hx
    · exact @ih ({ s with status := 0 }.withOutput (.capture .empty)) hroom hx
    · split at hx
      · rename_i hcat
        rw [List.mem_singleton.mp hx]
        refine ⟨(execute_settles (.pipe left right) hroom).1.room hroom, .inr ?_⟩
        rw [hcat.2]
        exact List.cons_ne_nil _ _
      · exact nomatch hx

/-- Behind a status other than 0 there is a message. -/
theorem execute_complains {job : Job} {s : Session} (hroom : s.world.errors.room = none)
    (hstatus : (execute .standard job s).2.status ≠ 0) :
    s.world.Complains (execute .standard job s).2.world := by
  obtain ⟨hvoices, hsettles⟩ := execute_settles job hroom
  rcases hsettles.status with ⟨hzero, -⟩ | ⟨-, hcomplains⟩
  · exact absurd hzero hstatus
  · exact hvoices.andComplains hcomplains

/-- With the standard table and an error stream that takes everything, a line returns; a status
other than 0 tells of a message that the line wrote to the error stream, and the status of each
command that the line ran tells of a message that this command wrote. -/
theorem failure_is_reported {line : String} {s : Session} (hroom : s.world.errors.room = none) :
    (executeLine .standard line s).1 = .returned
      ∧ ((executeLine .standard line s).2.status ≠ 0 →
          s.world.Complains (executeLine .standard line s).2.world)
      ∧ ∀ x ∈ stages .standard (Job.ofText line) s, (x.ran .standard).2.status ≠ 0 →
          x.before.world.Complains (x.ran .standard).2.world := by
  refine ⟨(execute_settles _ hroom).2.returned, execute_complains hroom, fun x hx hstatus => ?_⟩
  obtain ⟨hbegun, hbefore⟩ := stage_begins hroom hx
  rcases (dispatch_settles hbegun hbefore).status with ⟨hzero, -⟩ | ⟨-, hcomplains⟩
  · exact absurd hzero hstatus
  · exact hcomplains

/-- A session whose console takes two bytes more. -/
def cramped : Session := { quiet with world := { quiet.world with console := .blank (some 2) } }

/-- The current directory fits on the console, but not the newline behind it. -/
theorem failure_is_reported_cramped :
    cramped.world.errors.room = none
      ∧ (executeLine .standard "pwd" cramped).2.status = 1
      ∧ cramped.world.Complains (executeLine .standard "pwd" cramped).2.world
      ∧ (executeLine .standard "pwd" cramped).2.world.errors.bytes
        = encode "sink closed\n" := by
  have hstatus : (executeLine .standard "pwd" cramped).2.status = 1 := by decide +kernel
  obtain ⟨-, hline, -⟩ := @failure_is_reported "pwd" cramped rfl
  exact ⟨rfl, hstatus, hline (by rw [hstatus]; decide), by decide +kernel⟩

end Session

end LineShell
