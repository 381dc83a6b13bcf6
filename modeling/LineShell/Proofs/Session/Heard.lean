/-
What is heard of a run.

A command makes itself heard in two ways: it prints, to wherever the output goes, and it asks
questions, which a user sees on the console at once.  While the console is also the output, both
arrive there in the order in which they were uttered; while the output is a buffer, the
printed bytes wait in the buffer and only the questions are seen.

Apart from that a command does not depend on where its output goes.  Two worlds that differ in
nothing but console and output, and take everything, give the same replies throughout, so the two
runs end alike and utter the same.
-/
import LineShell.Proofs.Session.Flow

set_option autoImplicit false

namespace LineShell

open LineShell.Text

/-! ## Utterances -/

/-- Something that a command makes heard. -/
inductive Utterance where
  /-- A question on the console, for a user to answer. -/
  | asked (question : String)
  /-- Bytes that the output took. -/
  | printed (data : Bytes)
  deriving DecidableEq, Repr

namespace Utterance

/-- The bytes that are heard. -/
def bytes : Utterance → Bytes
  | .asked question => encode question
  | .printed data => data

/-- The question that is asked. -/
def question? : Utterance → Option String
  | .asked question => some question
  | .printed _ => none

/-- Whether something is asked. -/
def isAsked (u : Utterance) : Bool := u.question?.isSome

end Utterance

/-- The bytes of some utterances, in order. -/
def heard (us : List Utterance) : Bytes := us.flatMap Utterance.bytes

/-- The questions among some utterances, in order. -/
def questions (us : List Utterance) : List Utterance := us.filter Utterance.isAsked

/-- What is printed among some utterances, in order. -/
def prints (us : List Utterance) : List Utterance := us.filter (fun u => !u.isAsked)

theorem heard_append (us vs : List Utterance) : heard (us ++ vs) = heard us ++ heard vs :=
  List.flatMap_append

theorem questions_append (us vs : List Utterance) :
    questions (us ++ vs) = questions us ++ questions vs :=
  List.filter_append ..

theorem prints_append (us vs : List Utterance) : prints (us ++ vs) = prints us ++ prints vs :=
  List.filter_append ..

/-- What a request with its reply utters. -/
def Request.uttered : (r : Request) → r.Reply → Respondent → List Utterance
  | .print data, .ok (), _ => [.printed data]
  | .confirm question, _, .user => [.asked question]
  | _, _, _ => []

/-- What a run utters, in order. -/
def Action.uttered {α : Type} : Action α → World → List Utterance
  | .request r next, w =>
    r.uttered (w.answer r).1 w.respondent
      ++ (next (w.answer r).1).uttered (w.answer r).2
  | _, _ => []

/-! ## The console and the output -/

namespace Console

/-- A console that has got more bytes. -/
def append (c : Console) (data : Bytes) : Console := { c with written := c.written ++ data }

@[simp] theorem append_nil (c : Console) : c.append [] = c := by
  simp [append]

@[simp] theorem append_append (c : Console) (first second : Bytes) :
    (c.append first).append second = c.append (first ++ second) := by
  rw [append, append, append, Console.mk.injEq]
  exact ⟨Array.ext' (by simp), rfl⟩

theorem write_eq_append {c : Console} (h : c.room = none) (data : Bytes) :
    c.write data = (.ok (), c.append data) := by
  rcases c with ⟨written, room⟩
  simp only at h
  subst h
  rfl

end Console

namespace Output

/-- What the console hears of some utterances. -/
def audible (o : Output) (us : List Utterance) : Bytes :=
  match o with
  | .console => heard us
  | _ => heard (questions us)

/-- An output after some utterances, if no file is behind it. -/
def keeping (o : Output) (us : List Utterance) : Output :=
  match o with
  | .capture buffer => .capture (buffer.write (heard (prints us)))
  | o => o

theorem audible_append (o : Output) (us vs : List Utterance) :
    o.audible (us ++ vs) = o.audible us ++ o.audible vs := by
  rcases o with _ | _ | _
  · exact heard_append us vs
  · simp only [audible, questions_append, heard_append]
  · simp only [audible, questions_append, heard_append]

@[simp] theorem audible_nil (o : Output) : o.audible [] = [] := by
  rcases o with _ | _ | _ <;> rfl

/-- Where nothing is printed an output stays what it is. -/
theorem keeping_of_quiet (o : Output) {us : List Utterance} (h : prints us = []) :
    o.keeping us = o := by
  rcases o with _ | buffer | sink
  · rfl
  · rw [keeping, h]
    exact congrArg Output.capture buffer.write_nil
  · rfl

theorem keeping_append (o : Output) (us vs : List Utterance) :
    (o.keeping us).keeping vs = o.keeping (us ++ vs) := by
  rcases o with _ | buffer | _
  · rfl
  · simp only [keeping, CaptureBuffer.write_write, prints_append, heard_append]
  · rfl

theorem audible_of_sameStream {o later : Output} (h : o.SameStream later) (us : List Utterance) :
    later.audible us = o.audible us := by
  rcases o with _ | _ | _ <;> rcases later with _ | _ | _ <;> first | exact h.elim | rfl

end Output

namespace World

variable {w : World}

/-- The same world after some utterances, if no file is behind the output. -/
def hear (w : World) (us : List Utterance) : World :=
  { w with console := w.console.append (w.output.audible us), output := w.output.keeping us }

/-- The output takes everything and is not a file. -/
structure Takes (w : World) : Prop where
  fileless : w.output.IsFileless
  room : w.console.room = none

/-- What is printed is taken and heard. -/
theorem Takes.print (h : w.Takes) (data : Bytes) :
    w.print data = (.ok (), w.hear [.printed data]) := by
  have hheard : heard [.printed data] = data := List.append_nil data
  rcases houtput : w.output with _ | buffer | sink
  · rw [World.print, houtput, World.hear, houtput]
    simp only [Console.write_eq_append h.room, Output.audible, Output.keeping, hheard]
  · rw [World.print, houtput, World.hear, houtput]
    have hasked : heard (questions [.printed data]) = [] := rfl
    have hprinted : heard (prints [.printed data]) = data := hheard
    simp only [Output.audible, Output.keeping, hasked, hprinted, Console.append_nil]
  · exact absurd houtput (h.fileless sink)

/-- What the console gets at one request is what is audible of it. -/
theorem console_answer (h : w.console.room = none) (r : Request) :
    (w.answer r).2.console
      = w.console.append (w.output.audible (r.uttered (w.answer r).1 w.respondent)) := by
  have hquiet : w.console.append (w.output.audible []) = w.console := by
    rw [Output.audible_nil, Console.append_nil]
  cases r with
  | print data =>
    show (w.print data).2.console
      = w.console.append
        (w.output.audible ((Request.print data).uttered (w.print data).1 w.respondent))
    by_cases hfileless : w.output.IsFileless
    · rw [Takes.print ⟨hfileless, h⟩ data]
      rfl
    · -- into a file nothing is printed that the console could hear
      obtain ⟨sink, houtput⟩ : ∃ sink, w.output = .file sink := by
        simpa [Output.IsFileless] using hfileless
      have hprint : (w.print data).2.console = w.console := by
        rw [print, houtput]
      rw [hprint, houtput]
      rcases (w.print data).1 with _ | _ <;> exact (Console.append_nil _).symm
  | complain data => exact hquiet.symm
  | readUntil b =>
    show (w.readUntil b).2.console = w.console.append (w.output.audible [])
    rw [hquiet, readUntil]
    split <;> rfl
  | inputLeft => exact hquiet.symm
  | confirm question =>
    show (w.confirm question).2.console = w.console.append
      (w.output.audible ((Request.confirm question).uttered (w.confirm question).1 w.respondent))
    rcases hrespondent : w.respondent with (_ | ⟨answer, answers⟩) | _
    · rw [confirm, hrespondent]
      exact hquiet.symm
    · rw [confirm, hrespondent]
      exact hquiet.symm
    · rw [confirm, hrespondent]
      simp only [Console.write_eq_append h, Request.uttered]
      -- a question is audible wherever the output goes
      have haudible : w.output.audible [.asked question] = encode question := by
        rcases w.output with _ | _ | _ <;> exact List.append_nil _
      rw [haudible]
  | environment => exact hquiet.symm
  | setEnvironment env => exact hquiet.symm
  | files call => exact hquiet.symm

/-- What an output without a file gets at one request is what is printed. -/
theorem Takes.output_answer (h : w.Takes) (r : Request) :
    (w.answer r).2.output = w.output.keeping (r.uttered (w.answer r).1 w.respondent) := by
  have hquiet : w.output = w.output.keeping [] := (w.output.keeping_of_quiet rfl).symm
  cases r with
  | print data =>
    show (w.print data).2.output
      = w.output.keeping ((Request.print data).uttered (w.print data).1 w.respondent)
    rw [h.print data]
    rfl
  | complain data => exact hquiet
  | readUntil b => exact (w.readUntil_frame b).1.trans hquiet
  | inputLeft => exact hquiet
  | confirm question =>
    refine (w.confirm_frame question).1.trans (w.output.keeping_of_quiet ?_).symm
    rcases w.respondent with _ | _ <;> rfl
  | environment => exact hquiet
  | setEnvironment env => exact hquiet
  | files call => exact hquiet

theorem room_answer (h : w.console.room = none) (r : Request) :
    (w.answer r).2.console.room = none := by
  rw [console_answer h]
  exact h

theorem Takes.answer (h : w.Takes) (r : Request) : (w.answer r).2.Takes :=
  ⟨h.fileless.of_sameStream (w.sameStreams_answer r).output, room_answer h.room r⟩

end World

namespace Action

variable {α : Type}

/-- The console gets what is audible of a run. -/
theorem run_console (a : Action α) {w : World} (h : w.console.room = none) :
    (a.run w).2.console = w.console.append (w.output.audible (a.uttered w)) := by
  have hquiet : ∀ w : World, w.console = w.console.append (w.output.audible []) := by
    intro w
    rw [Output.audible_nil, Console.append_nil]
  induction a generalizing w with
  | done a => exact hquiet w
  | fail failure => exact hquiet w
  | panic message => exact hquiet w
  | request r next ih =>
    rw [run_request, ih _ (World.room_answer h r), World.console_answer h r,
      Console.append_append, Output.audible_of_sameStream (w.sameStreams_answer r).output]
    exact congrArg w.console.append (Output.audible_append _ _ _).symm

/-- An output without a file gets what is printed in a run. -/
theorem run_output (a : Action α) {w : World} (h : w.Takes) :
    (a.run w).2.output = w.output.keeping (a.uttered w) := by
  have hquiet : ∀ w : World, w.output = w.output.keeping [] :=
    fun w => (w.output.keeping_of_quiet rfl).symm
  induction a generalizing w with
  | done a => exact hquiet w
  | fail failure => exact hquiet w
  | panic message => exact hquiet w
  | request r next ih =>
    rw [run_request, ih _ (h.answer r), h.output_answer r, Output.keeping_append]
    rfl

end Action

/-! ## Elsewhere -/

namespace World

variable {w : World} {c : Console} {o : Output}

/-- The same world with another console and another output. -/
def elsewhere (w : World) (c : Console) (o : Output) : World :=
  { w with console := c, output := o }

/-- No reply tells where the output goes, as long as it takes everything. -/
theorem Takes.answer_elsewhere (h : w.Takes) (h' : (w.elsewhere c o).Takes) (r : Request) :
    ∃ c' o', (w.elsewhere c o).answer r = ((w.answer r).1, (w.answer r).2.elsewhere c' o') := by
  cases r with
  | print data =>
    refine ⟨c.append (o.audible [.printed data]), o.keeping [.printed data], ?_⟩
    show (w.elsewhere c o).print data = ((w.print data).1, (w.print data).2.elsewhere _ _)
    rw [h.print data, h'.print data]
    rfl
  | complain data => exact ⟨c, o, rfl⟩
  | readUntil b =>
    refine ⟨c, o, ?_⟩
    show (w.elsewhere c o).readUntil b = ((w.readUntil b).1, (w.readUntil b).2.elsewhere c o)
    rcases hinput : w.input with _ | reader
    · simp only [readUntil, elsewhere, hinput]
    · simp only [readUntil, elsewhere, hinput]
  | inputLeft => exact ⟨c, o, rfl⟩
  | confirm question =>
    rcases hrespondent : w.respondent with (_ | ⟨reply, replies⟩) | _
    · refine ⟨c, o, ?_⟩
      show (w.elsewhere c o).confirm question = ((w.confirm question).1, _)
      simp only [confirm, elsewhere, hrespondent, World.answer]
    · refine ⟨c, o, ?_⟩
      show (w.elsewhere c o).confirm question = ((w.confirm question).1, _)
      simp only [confirm, elsewhere, hrespondent, World.answer]
    · refine ⟨(c.write (encode question)).2, o, ?_⟩
      show (w.elsewhere c o).confirm question = ((w.confirm question).1, _)
      simp only [confirm, elsewhere, hrespondent, World.answer]
  | environment => exact ⟨c, o, rfl⟩
  | setEnvironment env => exact ⟨c, o, rfl⟩
  | files call => exact ⟨c, o, rfl⟩

end World

namespace Action

variable {α : Type}

/-- Two runs that differ in where the output goes end alike and utter the same. -/
theorem run_elsewhere (a : Action α) {w : World} {c : Console} {o : Output} (h : w.Takes)
    (h' : (w.elsewhere c o).Takes) :
    (∃ c' o', a.run (w.elsewhere c o) = ((a.run w).1, (a.run w).2.elsewhere c' o'))
      ∧ a.uttered (w.elsewhere c o) = a.uttered w := by
  induction a generalizing w c o with
  | done a => exact ⟨⟨c, o, rfl⟩, rfl⟩
  | fail failure => exact ⟨⟨c, o, rfl⟩, rfl⟩
  | panic message => exact ⟨⟨c, o, rfl⟩, rfl⟩
  | request r next ih =>
    obtain ⟨c', o', hanswer⟩ := h.answer_elsewhere h' r
    have htakes := h'.answer r
    rw [hanswer] at htakes
    obtain ⟨hrun, huttered⟩ := ih (w.answer r).1 (h.answer r) htakes
    refine ⟨?_, ?_⟩
    · rw [run_request, hanswer]
      exact hrun
    · show r.uttered ((w.elsewhere c o).answer r).1 w.respondent
        ++ (next ((w.elsewhere c o).answer r).1).uttered ((w.elsewhere c o).answer r).2 = _
      rw [hanswer, huttered]
      rfl

/-! ## What is uttered -/

/-- What is printed among the utterances is what the output took. -/
theorem heard_prints_uttered (a : Action α) (w : World) :
    heard (prints (a.uttered w)) = a.printed w := by
  induction a generalizing w with
  | done a => rfl
  | fail failure => rfl
  | panic message => rfl
  | request r next ih =>
    have hstep : heard (prints (r.uttered (w.answer r).1 w.respondent))
        = r.taken (w.answer r).1 := by
      cases r with
      | print data =>
        rcases ((w.answer (.print data)).1 : Except IoError Unit) with e | _
        · rfl
        · exact List.append_nil data
      | confirm question => rcases w.respondent with _ | _ <;> rfl
      | _ => rfl
    show heard (prints (r.uttered (w.answer r).1 w.respondent ++ _)) = _
    rw [prints_append, heard_append, ih, hstep, printed_request]

end Action

namespace World

/-- A request that puts no question leaves alone who answers and what was asked. -/
theorem respondent_answer {w : World} {r : Request} (h : ∀ question, r ≠ .confirm question) :
    (w.answer r).2.respondent = w.respondent ∧ (w.answer r).2.asked = w.asked
      ∧ (r.uttered (w.answer r).1 w.respondent).filterMap Utterance.question? = [] := by
  cases r with
  | print data =>
    have hprint : (w.print data).2.respondent = w.respondent
        ∧ (w.print data).2.asked = w.asked := by
      unfold World.print
      split <;> exact ⟨rfl, rfl⟩
    refine ⟨hprint.1, hprint.2, ?_⟩
    rcases ((w.answer (.print data)).1 : Except IoError Unit) with e | _ <;> rfl
  | readUntil b =>
    have hread : (w.readUntil b).2.respondent = w.respondent
        ∧ (w.readUntil b).2.asked = w.asked := by
      unfold World.readUntil
      split <;> exact ⟨rfl, rfl⟩
    exact ⟨hread.1, hread.2, rfl⟩
  | confirm question => exact absurd rfl (h question)
  | _ => exact ⟨rfl, rfl, rfl⟩

/-- Who answers stays the same, and a question is uttered when it is put to a user. -/
theorem asked_answer (w : World) (r : Request) :
    (w.respondent = .user → (w.answer r).2.respondent = .user
        ∧ (w.answer r).2.asked
          = w.asked ++ (r.uttered (w.answer r).1 w.respondent).filterMap Utterance.question?)
      ∧ (w.respondent ≠ .user → (w.answer r).2.respondent ≠ .user
        ∧ (r.uttered (w.answer r).1 w.respondent).filterMap Utterance.question? = []) := by
  by_cases hr : ∃ question, r = .confirm question
  · obtain ⟨question, rfl⟩ := hr
    show (w.respondent = .user → (w.confirm question).2.respondent = .user ∧ _)
      ∧ (w.respondent ≠ .user → (w.confirm question).2.respondent ≠ .user ∧ _)
    rcases hrespondent : w.respondent with replies | _
    · refine ⟨nofun, fun _ => ⟨?_, rfl⟩⟩
      rcases replies with _ | ⟨reply, replies⟩ <;> simp [confirm, hrespondent]
    · refine ⟨fun _ => ⟨?_, ?_⟩, fun h => absurd rfl h⟩
      · simp only [confirm, hrespondent]
      · simp only [World.answer, confirm, hrespondent]
        rfl
  · obtain ⟨hrespondent, hasked, huttered⟩ :=
      @respondent_answer w r fun question h => hr ⟨question, h⟩
    rw [hrespondent, hasked, huttered, List.append_nil]
    exact ⟨fun h => ⟨h, rfl⟩, fun h => ⟨h, rfl⟩⟩

end World

/-- The questions among the utterances are those that were asked, if it is a user who
answers; otherwise none is uttered. -/
theorem Action.run_asked {α : Type} (a : Action α) (w : World) :
    (w.respondent = .user →
        (a.run w).2.asked = w.asked ++ (a.uttered w).filterMap Utterance.question?)
      ∧ (w.respondent ≠ .user → (a.uttered w).filterMap Utterance.question? = []) := by
  induction a generalizing w with
  | done a => exact ⟨fun _ => (List.append_nil _).symm, fun _ => rfl⟩
  | fail failure => exact ⟨fun _ => (List.append_nil _).symm, fun _ => rfl⟩
  | panic message => exact ⟨fun _ => (List.append_nil _).symm, fun _ => rfl⟩
  | request r next ih =>
    obtain ⟨huser, hscripted⟩ := ih (w.answer r).1 (w.answer r).2
    obtain ⟨hstepUser, hstepScripted⟩ := w.asked_answer r
    refine ⟨fun h => ?_, fun h => ?_⟩
    · obtain ⟨hstays, hasked⟩ := hstepUser h
      rw [run_request, huser hstays, hasked, List.append_assoc, ← List.filterMap_append]
      rfl
    · obtain ⟨hstays, hasked⟩ := hstepScripted h
      show (r.uttered (w.answer r).1 w.respondent ++ _).filterMap Utterance.question? = []
      rw [List.filterMap_append, hasked, hscripted hstays]
      rfl

end LineShell
