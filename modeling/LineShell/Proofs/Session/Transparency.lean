/-
A pipe into `cat`.

Executing `left | cat` runs `left` with its output in a buffer and then echoes the buffer line by
line.  Because a command cannot tell where its output goes, and because the built-in verbs print
whole lines, the echo gives back exactly what was printed, with no newline added.  So the pipe
changes nothing that can be observed, with one exception: a question that is put to
a user is seen on the console at once, and through a pipe that is before everything that is
printed, not only before what is printed later.
-/
import LineShell.Proofs.Session.Restoration
import LineShell.Proofs.Verbs.Lines

set_option autoImplicit false

namespace LineShell

open LineShell.Text

/-! ## Hearing -/

theorem questions_questions (us : List Utterance) : questions (questions us) = questions us := by
  rw [questions, questions, List.filter_filter]
  simp

theorem prints_prints (us : List Utterance) : prints (prints us) = prints us := by
  rw [prints, prints, List.filter_filter]
  simp

theorem questions_prints (us : List Utterance) : questions (prints us) = [] := by
  rw [questions, prints, List.filter_filter]
  exact List.filter_eq_nil_iff.mpr (by simp)

theorem prints_questions (us : List Utterance) : prints (questions us) = [] := by
  rw [questions, prints, List.filter_filter]
  exact List.filter_eq_nil_iff.mpr (by simp)

theorem questions_eq_nil {us : List Utterance} (h : us.filterMap Utterance.question? = []) :
    questions us = [] := by
  refine List.filter_eq_nil_iff.mpr fun u hu => ?_
  rw [Utterance.isAsked, List.filterMap_eq_nil_iff.mp h u hu]
  exact Bool.false_ne_true

theorem prints_eq_self {us : List Utterance} (h : us.filterMap Utterance.question? = []) :
    prints us = us := by
  refine List.filter_eq_self.mpr fun u hu => ?_
  rw [Utterance.isAsked, List.filterMap_eq_nil_iff.mp h u hu]
  rfl

namespace World

variable {w : World}

theorem hear_hear (w : World) (us vs : List Utterance) :
    (w.hear us).hear vs = w.hear (us ++ vs) := by
  have haudible : (w.output.keeping us).audible vs = w.output.audible vs := by
    rcases w.output with _ | _ | _ <;> rfl
  simp only [hear, haudible, Output.keeping_append, Console.append_append, Output.audible_append]

/-- Printing the same bytes in other pieces is heard as the same. -/
theorem hear_prints (w : World) (us : List Utterance) :
    w.hear (prints us) = w.hear [.printed (heard (prints us))] := by
  have hwhole : heard [.printed (heard (prints us))] = heard (prints us) := List.append_nil _
  have hquiet : questions [.printed (heard (prints us))] = [] := rfl
  have hall : prints [.printed (heard (prints us))] = [.printed (heard (prints us))] := rfl
  rcases houtput : w.output with _ | buffer | sink
  · simp only [hear, houtput, Output.audible, Output.keeping, hwhole]
  · simp only [hear, houtput, Output.audible, Output.keeping, prints_prints, hwhole,
      questions_prints, hquiet, hall]
  · simp only [hear, houtput, Output.audible, Output.keeping, questions_prints, hquiet]

theorem elsewhere_hear_questions (w : World) (c : Console) (o : Output) (us : List Utterance) :
    (w.elsewhere c o).hear (questions us) = w.elsewhere (c.append (heard (questions us))) o := by
  have haudible : o.audible (questions us) = heard (questions us) := by
    rcases o with _ | _ | _
    · rfl
    · simp only [Output.audible, questions_questions]
    · simp only [Output.audible, questions_questions]
  show { w with console := c.append (o.audible (questions us)), output := o.keeping (questions us) }
    = _
  rw [haudible, o.keeping_of_quiet (prints_questions us)]
  rfl

@[simp] theorem hear_nil (w : World) : w.hear [] = w := by
  rw [hear, Output.audible_nil, Console.append_nil, w.output.keeping_of_quiet rfl]

theorem Takes.hear (h : w.Takes) (us : List Utterance) : (w.hear us).Takes := by
  refine ⟨?_, h.room⟩
  rcases houtput : w.output with _ | _ | sink
  · rw [World.hear, houtput]
    intro sink hsink
    cases hsink
  · rw [World.hear, houtput]
    intro sink hsink
    cases hsink
  · exact absurd houtput (h.fileless sink)

end World

/-! ## Echoing from memory -/

/-- A text that ends in its newline is printed as it is. -/
theorem run_printText {line : Bytes} (hline : line.getLast? = some newline) {w : World}
    (hw : w.Takes) : (Verbs.printText line).run w = (.done (), w.hear [.printed line]) := by
  have hlacks : Verbs.lacksNewline line = false := by
    rw [Verbs.lacksNewline, hline]
    simp
  rw [Verbs.printText, Action.run_bind, (Action.run_print hw line).1, hlacks]
  rfl

/-- What is behind the first line of whole lines is whole lines. -/
theorem endsLine_rest {first rest : Bytes} (h : EndsLine (first ++ rest)) : EndsLine rest := by
  by_cases hrest : rest = []
  · exact .inl hrest
  · rcases h with h | h
    · exact .inl (List.append_eq_nil_iff.mp h).2
    · refine .inr ?_
      rwa [List.getLast?_append_of_ne_nil _ hrest] at h

/-- Echoing whole lines from memory prints them as they are. -/
theorem run_echoLines {n : Nat} {data : Bytes} (hn : data.length < n) (hdata : EndsLine data)
    {w : World} (hw : w.Takes) (hinput : w.input = .memory ⟨data⟩) :
    (Verbs.echoLines n).run w
      = (.done (), { w with input := .memory ⟨[]⟩ }.hear [.printed data]) := by
  induction n generalizing data w with
  | zero => exact absurd hn (Nat.not_lt_zero _)
  | succ n ih =>
    have hcut := cutAfter_append newline data
    rcases hline : cutAfter newline data with ⟨line, rest⟩
    rw [hline] at hcut
    simp only at hcut
    have hanswer : w.answer (.readUntil newline)
        = (.ok line, { w with input := .memory ⟨rest⟩ }) := by
      show w.readUntil newline = _
      rw [World.readUntil, hinput]
      simp only [MemoryReader.readUntil, hline]
    have hnext : (Verbs.echoLines (n + 1)).run w
        = ((if line.isEmpty = true then pure () else do
              Verbs.printText line
              Verbs.echoLines n) : Action Unit).run { w with input := .memory ⟨rest⟩ } := by
      rw [Verbs.echoLines, Action.run_bind, Action.run_ask, hanswer]
    rw [hnext]
    rcases hdata with rfl | hdata
    · -- nothing is left: the empty piece is the end
      obtain ⟨rfl, rfl⟩ : [] = line ∧ [] = rest := by
        simpa [cutAfter] using hline
      have hsilent : ({ w with input := .memory ⟨[]⟩ } : World).hear [.printed []]
          = { w with input := .memory ⟨[]⟩ } :=
        (World.hear_prints { w with input := .memory ⟨[]⟩ } []).symm.trans (World.hear_nil _)
      rw [hsilent]
      rfl
    · have hlast : line.getLast? = some newline := by
        have := getLast?_cutAfter (List.mem_of_getLast? hdata)
        rwa [hline] at this
      have hne : line ≠ [] := by
        rintro rfl
        simp at hlast
      have hrest : EndsLine rest := endsLine_rest (.inr (hcut ▸ hdata) : EndsLine (line ++ rest))
      have hlength : rest.length < n := by
        have := List.length_pos_iff.mpr hne
        rw [← hcut, List.length_append] at hn
        omega
      have htakes : ({ w with input := .memory ⟨rest⟩ } : World).Takes := ⟨hw.fileless, hw.room⟩
      rw [if_neg (by simpa using hne), Action.run_bind, run_printText hlast htakes]
      simp only
      rw [ih hlength hrest (htakes.hear _) rfl]
      -- the first line and the rest are heard as one
      have hwhole :=
        World.hear_prints { w with input := .memory ⟨[]⟩ } [.printed line, .printed rest]
      have hheard : heard (prints [.printed line, .printed rest]) = data := by
        rw [← hcut]
        exact congrArg (line ++ ·) (List.append_nil rest)
      rw [hheard] at hwhole
      rw [← hwhole]
      exact congrArg (Prod.mk _) (World.hear_hear { w with input := .memory ⟨[]⟩ } _ _)

/-- The command `cat` without operands prints the whole lines that are in memory. -/
theorem dispatch_cat {s : Session} {data : Bytes} (hdata : EndsLine data) (hs : s.world.Takes)
    (hinput : s.world.input = .memory ⟨data⟩) :
    Session.dispatch .standard "cat" s
      = (.returned, ⟨{ s.world with input := .memory ⟨[]⟩ }.hear [.printed data], 0⟩) := by
  have htokens : tokenize "cat" = ["cat"] := by decide +kernel
  have hverb : VerbTable.standard.find? "cat" = some Verbs.cat.handler := rfl
  have hleft : s.world.inputLeft = data.length := by
    rw [World.inputLeft, hinput]
  have hecho : Verbs.echo.run s.world
      = (.done (), { s.world with input := .memory ⟨[]⟩ }.hear [.printed data]) := by
    show (Verbs.echoLines (s.world.inputLeft + 1)).run s.world = _
    rw [hleft]
    exact run_echoLines (Nat.lt_succ_self _) hdata hs hinput
  have hbody : (Verbs.cat.handler ["cat"]).run s.world
      = (.done 0, { s.world with input := .memory ⟨[]⟩ }.hear [.printed data]) := by
    show (Builtin.reporting (Verbs.echo.attempt >>= _)).run s.world = _
    rw [Builtin.reporting, Action.run_bind, Action.run_attempt, Action.run_bind, Action.run_attempt,
      hecho]
    rfl
  rw [Session.dispatch_of_find? htokens hverb, Session.runHandler, hbody]

/-! ## The left side -/

theorem filterMap_questions (us : List Utterance) :
    (questions us).filterMap Utterance.question? = us.filterMap Utterance.question? := by
  rw [questions, List.filterMap_filter]
  refine List.filterMap_congr fun u _ => ?_
  rcases u with _ | _ <;> rfl

namespace Action

variable {α : Type} {w : World} {c : Console} {o : Output}

/-- The world behind a run is one that has heard what was uttered. -/
theorem run_hear (a : Action α) (h : w.Takes) :
    (a.run w).2 = ((a.run w).2.elsewhere w.console w.output).hear (a.uttered w) := by
  show (a.run w).2 = { (a.run w).2 with
    console := w.console.append (w.output.audible (a.uttered w))
    output := w.output.keeping (a.uttered w) }
  rw [← a.run_console h.room, ← a.run_output h]

/-- Elsewhere, the same is heard. -/
theorem run_elsewhere_hear (a : Action α) (h : w.Takes) (h' : (w.elsewhere c o).Takes) :
    a.run (w.elsewhere c o)
      = ((a.run w).1, ((a.run w).2.elsewhere c o).hear (a.uttered w)) := by
  obtain ⟨⟨c', o', hrun⟩, huttered⟩ := a.run_elsewhere h h'
  have hhear := a.run_hear h'
  rw [hrun, huttered] at hhear
  rw [hrun]
  exact congrArg (Prod.mk _) hhear

end Action

namespace Session

/-- Without a file behind the output, the programs of the standard table end, and print whole
lines. -/
theorem program_standard (command : String) :
    (program .standard command).Calm ∧ (program .standard command).LineWise :=
  ⟨program_composed Action.Calm.composable (fun _ => Action.Calm.ask _) command,
    program_composed Action.LineWise.composable (fun _ _ _ => .inl rfl) command⟩

theorem dispatch_standard_returned (command : String) (s : Session) :
    (dispatch .standard command s).1 = .returned := by
  have hcalm := (program_standard command).1.run_ne_panicked s.world
  rw [(dispatch_eq_run command s).1]
  revert hcalm
  rcases ((program .standard command).run s.world).1 with _ | _ | message
  · exact fun _ => rfl
  · exact fun _ => rfl
  · exact fun hcalm => absurd rfl (hcalm message)

/-- The questions that are put between two worlds are the ones that are uttered, if it is a user
who answers; otherwise none is uttered. -/
def Asks (before after : World) (us : List Utterance) : Prop :=
  (before.respondent = .user → after.asked = before.asked ++ us.filterMap Utterance.question?)
    ∧ (before.respondent ≠ .user → us.filterMap Utterance.question? = [])

/-- A redirection looks at the current output only to put it back. -/
theorem redirect_withOutput (inner : Session → Ending × Session) (target : String)
    (mode : Redirection) (s : Session) (o : Output) :
    redirect inner target mode (s.withOutput o)
      = ((redirect inner target mode s).1, (redirect inner target mode s).2.withOutput o) := by
  have hopen : (s.withOutput o).openOutput ((s.withOutput o).world.env.locate target) mode
      = s.openOutput (s.world.env.locate target) mode := rfl
  rw [redirect, redirect, hopen]
  rcases s.openOutput (s.world.env.locate target) mode with e | opened
  · rfl
  · simp only
    rcases (inner opened).1 with _ | _
    · rcases (inner opened).2.flushOutput.1 with _ | _ <;> rfl
    · rfl

theorem flushOutput_frame (s : Session) :
    s.flushOutput.2.world.console = s.world.console
      ∧ s.flushOutput.2.world.asked = s.world.asked := by
  unfold flushOutput
  split <;> exact ⟨rfl, rfl⟩

/-- Of a redirected command the console hears the questions. -/
theorem redirect_hear (command target : String) (mode : Redirection) {s : Session}
    (hroom : s.world.console.room = none) :
    ∃ us, (redirect (execute .standard (.simple command)) target mode s).1 = .returned
      ∧ (redirect (execute .standard (.simple command)) target mode s).2.world.console
          = s.world.console.append (heard (questions us))
      ∧ Asks s.world (redirect (execute .standard (.simple command)) target mode s).2.world
          (questions us) := by
  rcases hopen : s.openOutput (s.world.env.locate target) mode with e | opened
  · refine ⟨[], ?_⟩
    simp only [redirect, hopen]
    exact ⟨trivial, (Console.append_nil _).symm, fun _ => (List.append_nil _).symm, fun _ => rfl⟩
  · obtain ⟨handle, files, -, rfl⟩ := openOutput_cases hopen
    -- the command runs with its output going to a file
    have hreturned := dispatch_standard_returned command
      { s with world := s.world.redirected handle files, status := 0 }
    obtain ⟨-, hworld⟩ := @dispatch_eq_run .standard command
      { s with world := s.world.redirected handle files, status := 0 }
    have hconsole := (program .standard command).run_console
      (show (s.world.redirected handle files).console.room = none from hroom)
    have hasked := (program .standard command).run_asked (s.world.redirected handle files)
    refine ⟨(program .standard command).uttered (s.world.redirected handle files), ?_⟩
    have hinner : execute .standard (.simple command)
        { s with world := { s.world with files := files, output := .file ⟨handle, []⟩ } }
        = dispatch .standard command
          { s with world := s.world.redirected handle files, status := 0 } := rfl
    simp only [redirect, hopen, hinner]
    generalize dispatch .standard command
      { s with world := s.world.redirected handle files, status := 0 } = ran at hreturned hworld ⊢
    rcases ran with ⟨ending, after⟩
    simp only at hreturned hworld ⊢
    subst hreturned
    obtain ⟨hflushed, hflushedAsked⟩ := flushOutput_frame after
    rw [hworld, hconsole] at hflushed
    rw [hworld] at hflushedAsked
    have hquestions : Asks s.world after.flushOutput.2.world
        (questions ((program .standard command).uttered (s.world.redirected handle files))) := by
      rw [Asks, hflushedAsked, filterMap_questions]
      exact hasked
    rcases after.flushOutput.1 with _ | _
    · exact ⟨rfl, hflushed, hquestions⟩
    · exact ⟨rfl, hflushed, hquestions⟩

/-- What a line does, and what it does when its output goes into a buffer: the two worlds have
heard the same, on top of worlds that differ in the output alone. -/
structure HeardEitherWay (left : String) (s : Session) (base : World) (us : List Utterance) :
    Prop where
  console : base.console = s.world.console
  output : base.output = s.world.output
  returned : (executeLine .standard left s).1 = .returned
  world : (executeLine .standard left s).2.world = base.hear us
  returned_captured : (executeLine .standard left (s.withOutput (.capture .empty))).1 = .returned
  world_captured : (executeLine .standard left (s.withOutput (.capture .empty))).2.world
    = (base.elsewhere s.world.console (.capture .empty)).hear us
  endsLine : EndsLine (heard (prints us))
  asks : Asks s.world (base.hear us) us

section Left

variable {left command : String} {s : Session}

/-- The two runs of a command differ in where its output goes. -/
theorem heardEitherWay_simple (hs : s.world.Takes)
    (hparse : Line.parse left = .ok (.simple command)) :
    HeardEitherWay left s
      (((program .standard command).run s.world).2.elsewhere s.world.console s.world.output)
      ((program .standard command).uttered s.world) := by
  have hbuffer : (s.world.elsewhere s.world.console (.capture .empty)).Takes :=
    ⟨fun sink => nofun, hs.room⟩
  have hdirect := @dispatch_eq_run .standard command { s with status := 0 }
  have hcaptured := @dispatch_eq_run .standard command
    { s.withOutput (.capture .empty) with status := 0 }
  have helsewhere := (program .standard command).run_elsewhere_hear hs hbuffer
  constructor
  case console => rfl
  case output => rfl
  case returned =>
    rw [executeLine_of_simple hparse]
    exact dispatch_standard_returned _ _
  case world =>
    rw [executeLine_of_simple hparse, hdirect.2]
    exact (program .standard command).run_hear hs
  case returned_captured =>
    rw [executeLine_of_simple hparse]
    exact dispatch_standard_returned _ _
  case world_captured =>
    rw [executeLine_of_simple hparse, hcaptured.2]
    exact congrArg Prod.snd helsewhere
  case endsLine =>
    rw [Action.heard_prints_uttered]
    exact (program_standard command).2 s.world hs
  case asks => exact (program .standard command).run_asked s.world

/-- A redirection exchanges the output in any case, and puts it back. -/
theorem heardEitherWay_redirect {target : String} {mode : Redirection} (hs : s.world.Takes)
    (hparse : Line.parse left = .ok (.redirect command target mode)) :
    ∃ base us, HeardEitherWay left s base us := by
  obtain ⟨us, hreturned, hconsole, hasks⟩ := @redirect_hear command target mode
    { s with status := 0 } hs.room
  obtain ⟨houtput, -⟩ := @redirect_streams (execute .standard (.simple command))
    (sameStreams_execute (.simple command)) target mode { s with status := 0 }
  have hdirect : executeLine .standard left s = _ := executeLine_of_redirect hparse
  have hcaptured : executeLine .standard left (s.withOutput (.capture .empty)) = _ :=
    (executeLine_of_redirect hparse).trans
      (redirect_withOutput (execute .standard (.simple command)) target mode
        { s with status := 0 } (.capture .empty))
  generalize redirect (execute .standard (.simple command)) target mode
    { s with status := 0 } = ran at hreturned hconsole hasks houtput hdirect hcaptured
  rcases ran with ⟨ending, after⟩
  refine ⟨after.world.elsewhere s.world.console s.world.output, questions us, ?_⟩
  constructor
  case console => rfl
  case output => rfl
  case returned =>
    rw [hdirect]
    exact hreturned
  case world =>
    rw [hdirect, World.elsewhere_hear_questions, ← hconsole, ← houtput]
    rfl
  case returned_captured =>
    rw [hcaptured]
    exact hreturned
  case world_captured =>
    rw [hcaptured]
    show _ = (after.world.elsewhere s.world.console (.capture .empty)).hear (questions us)
    rw [World.elsewhere_hear_questions, ← hconsole]
    rfl
  case endsLine =>
    rw [prints_questions]
    exact .inl rfl
  case asks => exact hasks

/-- Every line without a pipe is heard alike whether its output goes into a buffer or not. -/
theorem heardEitherWay (hline : ∀ l r, Line.parse left ≠ .ok (.pipe l r)) (hs : s.world.Takes) :
    ∃ base us, HeardEitherWay left s base us := by
  rcases hparse : Line.parse left with e | (_ | command | ⟨l, r⟩ | ⟨command, target, mode⟩)
  · -- nothing is executed, and the fault is reported on the error stream
    have hmalformed : ∀ s, executeLine .standard left s
        = (.returned, { s with status := 0 }.report (.malformed e)) := by
      intro s
      rw [executeLine, Job.ofText_eq, hparse]
      rfl
    refine ⟨({ s with status := 0 }.report (.malformed e)).world, [], rfl, rfl, ?_, ?_, ?_, ?_,
      .inl rfl, fun _ => (List.append_nil _).symm, fun _ => rfl⟩
    · rw [hmalformed]
    · rw [hmalformed, World.hear_nil]
    · rw [hmalformed]
    · rw [hmalformed, World.hear_nil]
      rfl
  · have hblank : ∀ s, executeLine .standard left s = (.returned, { s with status := 0 }) := by
      intro s
      rw [executeLine, Job.ofText_eq, hparse]
      rfl
    refine ⟨s.world, [], rfl, rfl, ?_, ?_, ?_, ?_, .inl rfl,
      fun _ => (List.append_nil _).symm, fun _ => rfl⟩
    · rw [hblank]
    · rw [hblank, World.hear_nil]
    · rw [hblank]
    · rw [hblank, World.hear_nil]
      rfl
  · exact ⟨_, _, heardEitherWay_simple hs hparse⟩
  · exact absurd hparse (hline l r)
  · exact heardEitherWay_redirect hs hparse

end Left

/-! ## The pipe -/

/-- Through a pipe the questions are heard first, and `cat` prints what was captured. -/
theorem executeLine_pipe_cat {left : String} (hblank : ∃ c ∈ left.toList, isSpace c = false)
    (hpipe : '|' ∉ left.toList) {s : Session} (hs : s.world.Takes) {base : World}
    {us : List Utterance} (h : HeardEitherWay left { s with status := 0 } base us) :
    (executeLine .standard (left ++ " | cat") s).1 = .returned
      ∧ (executeLine .standard (left ++ " | cat") s).2.world
        = base.hear (questions us ++ prints us) := by
  have hcapturedWorld := h.world_captured
  have hconsole : base.console = s.world.console := h.console
  have houtput : base.output = s.world.output := h.output
  have hinner : executeLine .standard (String.ofList (trim left.toList))
      = executeLine .standard left := by
    funext s
    rw [executeLine, Job.ofText_congr (Line.parse_ofList_trim left)]
    rfl
  rw [executeLine_of_pipe (Line.parse_append_pipe hblank hpipe), hinner,
    pipe_of_returned h.returned_captured]
  generalize executeLine .standard left
    (({ s with status := 0 } : Session).withOutput (.capture .empty)) = ran at hcapturedWorld ⊢
  rcases ran with ⟨ended, after⟩
  simp only at hcapturedWorld
  have hcat : tokenize "cat" = ["cat"] := by decide +kernel
  -- what the buffer holds is what was printed
  have hbuffer : after.captured = heard (prints us) := by
    rw [captured, hcapturedWorld]
    exact CaptureBuffer.bytes_write _ _
  have hheard : { after.world with output := s.world.output } = base.hear (questions us) := by
    have hquestions : base.hear (questions us)
        = base.elsewhere (base.console.append (heard (questions us))) base.output :=
      World.elsewhere_hear_questions base base.console base.output us
    rw [hquestions, hcapturedWorld, hconsole, houtput]
    rfl
  have hbase : base.Takes :=
    ⟨by rw [houtput]; exact hs.fileless, by rw [hconsole]; exact hs.room⟩
  have htakes := hbase.hear (questions us)
  rw [← hheard] at htakes
  have hdispatch := @dispatch_cat
    ((after.withOutput s.world.output).withInput (.memory ⟨after.captured⟩)) _
    (hbuffer ▸ h.endsLine) ⟨htakes.fileless, htakes.room⟩ rfl
  rw [if_pos hcat]
  simp only
  rw [hdispatch]
  refine ⟨rfl, ?_⟩
  rw [← World.hear_hear, ← hheard, World.hear_prints, ← hbuffer]
  rfl

/-- With the standard table and an output that takes everything, a pipe into `cat` does what its
left side does by itself: the two worlds agree in the files, the environment, the errors, the inputs
and the questions that were put, and the output has got the same utterances.  The order differs in
one respect: questions on the console come before what is printed.  Where no user is asked,
the worlds are equal. -/
theorem pipe_into_cat_transparent {left : String} (hblank : ∃ c ∈ left.toList, isSpace c = false)
    (hpipe : '|' ∉ left.toList) {s : Session} (hs : s.world.Takes) :
    ∃ (base : World) (us : List Utterance),
      base.console = s.world.console ∧ base.output = s.world.output
      ∧ (executeLine .standard left s).1 = .returned
      ∧ (executeLine .standard left s).2.world = base.hear us
      ∧ (executeLine .standard (left ++ " | cat") s).1 = .returned
      ∧ (executeLine .standard (left ++ " | cat") s).2.world
          = base.hear (questions us ++ prints us)
      ∧ (s.world.respondent = .user →
          base.asked = s.world.asked ++ us.filterMap Utterance.question?)
      ∧ (s.world.respondent ≠ .user →
          (executeLine .standard (left ++ " | cat") s).2.world
            = (executeLine .standard left s).2.world) := by
  obtain ⟨base, us, h⟩ := @heardEitherWay left { s with status := 0 } (Line.parse_ne_pipe hpipe) hs
  have hpiped := executeLine_pipe_cat hblank hpipe hs h
  have hdirect := h.returned
  have hdirectWorld := h.world
  obtain ⟨hasksUser, hasksScripted⟩ := h.asks
  rw [executeLine_status] at hdirect hdirectWorld
  refine ⟨base, us, h.console, h.output, hdirect, hdirectWorld, hpiped.1, hpiped.2, hasksUser, ?_⟩
  intro hscripted
  rw [hpiped.2, hdirectWorld, questions_eq_nil (hasksScripted hscripted),
    prints_eq_self (hasksScripted hscripted), List.nil_append]

/-- The current directory is printed and piped. -/
theorem pipe_into_cat_transparent_pwd :
    (∃ c ∈ "pwd".toList, isSpace c = false) ∧ '|' ∉ "pwd".toList ∧ quiet.world.Takes
      ∧ (executeLine .standard "pwd | cat" quiet).2.world
        = (executeLine .standard "pwd" quiet).2.world := by
  have hblank : ∃ c ∈ "pwd".toList, isSpace c = false := ⟨'p', by decide, by decide⟩
  have hpipe : '|' ∉ "pwd".toList := by decide
  have htakes : quiet.world.Takes := ⟨fun sink => nofun, rfl⟩
  obtain ⟨_, _, -, -, -, -, -, -, -, hequal⟩ := pipe_into_cat_transparent hblank hpipe htakes
  exact ⟨hblank, hpipe, htakes, hequal nofun⟩

/-- A session with a user, in a directory that holds the files `a`, `b` and `d/b`. -/
def asking : Session where
  world :=
    { env := .startingIn (Path.ofString "/r") none
      files :=
        { entries := [([encode "r"], .directory), ([encode "a", encode "r"], .file 0),
            ([encode "b", encode "r"], .file 1), ([encode "d", encode "r"], .directory),
            ([encode "b", encode "d", encode "r"], .file 2)]
          files := [⟨encode "A", false⟩, ⟨encode "B", false⟩, ⟨encode "C", false⟩]
          volumes := []
          base := [encode "r"] }
      console := .blank none
      errors := .blank none
      source := .ofBytes (encode "y\n")
      output := .console
      input := .session
      respondent := .user
      asked := [] }
  status := 0

/-- The first move is reported before the question of the second one, but not through a pipe. -/
theorem pipe_into_cat_reorders_questions :
    (∃ c ∈ "mv a b d".toList, isSpace c = false) ∧ '|' ∉ "mv a b d".toList ∧ asking.world.Takes
      ∧ (executeLine .standard ("mv a b d" ++ " | cat") asking).2.world.console.bytes
        ≠ (executeLine .standard "mv a b d" asking).2.world.console.bytes :=
  ⟨⟨'m', by decide, by decide⟩, by decide, ⟨fun sink => nofun, rfl⟩, by decide +kernel⟩

end Session

end LineShell
