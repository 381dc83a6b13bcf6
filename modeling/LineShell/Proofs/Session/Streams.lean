/-
The streams around a line.

No request exchanges a stream, so a command can only use the streams it finds: a buffer gets
longer, a reader shorter, a sink goes on writing to its file.  The compositions do exchange
streams, and what they put back is the value they took away.  Both facts together are the
induction on jobs below, which does not ask how the inner part ended.

The files are treated the same way.  Executing a job changes them by calls, by opening
targets and by writing through handles; a relation that all three preserve is preserved by
execution (`execute_files`).
-/
import LineShell.Proofs.Files.Sound
import LineShell.Proofs.Session.Observed
import LineShell.Proofs.Stream.Sink
import LineShell.Session.Execute

set_option autoImplicit false

namespace LineShell

/-! ## The same stream -/

/-- A later state of the same output. -/
def Output.SameStream : Output → Output → Prop
  | .console, .console => True
  | .capture buffer, .capture later => ∃ data, later = buffer.write data
  | .file sink, .file later => sink.handle.opening = later.handle.opening
  | _, _ => False

/-- A later state of the same input. -/
def Input.SameStream : Input → Input → Prop
  | .session, .session => True
  | .memory reader, .memory later => ∃ taken, reader.rest = taken ++ later.rest
  | _, _ => False

theorem CaptureBuffer.write_write (b : CaptureBuffer) (first second : Bytes) :
    (b.write first).write second = b.write (first ++ second) := by
  rw [write, write, write, CaptureBuffer.mk.injEq]
  exact Array.ext' (by simp)

theorem CaptureBuffer.write_nil (b : CaptureBuffer) : b.write [] = b := by
  simp [write]

namespace Output

theorem SameStream.refl (o : Output) : o.SameStream o := by
  rcases o with _ | buffer | sink
  · trivial
  · exact ⟨[], buffer.write_nil.symm⟩
  · rfl

theorem SameStream.trans {o₁ o₂ o₃ : Output} (h : o₁.SameStream o₂) (h' : o₂.SameStream o₃) :
    o₁.SameStream o₃ := by
  rcases o₁ with _ | buffer | sink <;> rcases o₂ with _ | _ | _ <;>
    first | exact h.elim | rcases o₃ with _ | _ | _ <;> first | exact h'.elim | skip
  · trivial
  · obtain ⟨first, rfl⟩ := h
    obtain ⟨second, rfl⟩ := h'
    exact ⟨first ++ second, buffer.write_write first second⟩
  · exact Eq.trans h h'

theorem SameStream.console_iff {o later : Output} (h : o.SameStream later) :
    o = .console ↔ later = .console := by
  rcases o with _ | buffer | sink <;> rcases later with _ | buffer' | sink'
  all_goals first
    | exact h.elim
    | simp

end Output

namespace Input

theorem SameStream.refl (i : Input) : i.SameStream i := by
  rcases i with _ | reader
  · trivial
  · exact ⟨[], rfl⟩

theorem SameStream.trans {i₁ i₂ i₃ : Input} (h : i₁.SameStream i₂) (h' : i₂.SameStream i₃) :
    i₁.SameStream i₃ := by
  rcases i₁ with _ | reader <;> rcases i₂ with _ | _ <;>
    first | exact h.elim | rcases i₃ with _ | _ <;> first | exact h'.elim | skip
  · trivial
  · obtain ⟨first, hfirst⟩ := h
    obtain ⟨second, hsecond⟩ := h'
    exact ⟨first ++ second, by rw [hfirst, hsecond, List.append_assoc]⟩

end Input

/-! ## Commands -/

namespace World

/-- Both streams are later states of what they were. -/
structure SameStreams (w later : World) : Prop where
  output : w.output.SameStream later.output
  input : w.input.SameStream later.input

theorem SameStreams.refl (w : World) : w.SameStreams w := ⟨.refl _, .refl _⟩

theorem SameStreams.trans {u v w : World} (h : u.SameStreams v) (h' : v.SameStreams w) :
    u.SameStreams w := ⟨h.output.trans h'.output, h.input.trans h'.input⟩

/-- A question changes neither the exchanged streams nor the files. -/
theorem confirm_frame (w : World) (question : String) :
    (w.confirm question).2.output = w.output ∧ (w.confirm question).2.input = w.input
      ∧ (w.confirm question).2.files = w.files := by
  unfold confirm
  rcases w.respondent with (_ | ⟨answer, answers⟩) | _ <;> exact ⟨rfl, rfl, rfl⟩

/-- Reading changes nothing but the input. -/
theorem readUntil_frame (w : World) (b : UInt8) :
    (w.readUntil b).2.output = w.output ∧ (w.readUntil b).2.files = w.files
      ∧ (w.readUntil b).2.errors = w.errors := by
  unfold readUntil
  split <;> exact ⟨rfl, rfl, rfl⟩

/-- Printing goes on in the stream that is there. -/
theorem sameStreams_print (w : World) (data : Bytes) : w.SameStreams (w.print data).2 := by
  refine ⟨?_, ?_⟩
  · unfold print
    split
    · rename_i h
      rw [h]
      trivial
    · rename_i buffer h
      rw [h]
      exact ⟨data, rfl⟩
    · rename_i sink h
      rw [h]
      exact (sink.opening_write data w.files).symm
  · have hinput : (w.print data).2.input = w.input := by
      unfold print
      split <;> rfl
    rw [hinput]
    exact .refl _

/-- Reading goes on in the stream that is there. -/
theorem sameStreams_readUntil (w : World) (b : UInt8) : w.SameStreams (w.readUntil b).2 := by
  refine ⟨?_, ?_⟩
  · rw [(w.readUntil_frame b).1]
    exact .refl _
  · unfold readUntil
    split
    · rename_i h
      rw [h]
      trivial
    · rename_i reader h
      rw [h]
      exact ⟨(cutAfter b reader.rest).1, (cutAfter_append b reader.rest).symm⟩

/-- No request exchanges a stream. -/
theorem sameStreams_answer (w : World) (r : Request) : w.SameStreams (w.answer r).2 := by
  cases r with
  | print data => exact w.sameStreams_print data
  | complain data => exact ⟨.refl _, .refl _⟩
  | readUntil b => exact w.sameStreams_readUntil b
  | inputLeft => exact .refl w
  | confirm question =>
    obtain ⟨houtput, hinput, -⟩ := w.confirm_frame question
    refine ⟨?_, ?_⟩
    · show w.output.SameStream (w.confirm question).2.output
      rw [houtput]
      exact .refl _
    · show w.input.SameStream (w.confirm question).2.input
      rw [hinput]
      exact .refl _
  | environment => exact .refl w
  | setEnvironment env => exact ⟨.refl _, .refl _⟩
  | files call => exact ⟨.refl _, .refl _⟩

end World

/-- A command leaves the streams that it found, however it ends. -/
theorem Action.run_sameStreams {α : Type} (a : Action α) (w : World) :
    w.SameStreams (a.run w).2 :=
  run_of_step World.SameStreams.refl World.SameStreams.trans World.sameStreams_answer a w

/-! ## Jobs -/

namespace Session

variable {table : VerbTable}

/-! ## Simple commands as programs -/

/-- Makes a report. Whether it is taken makes no difference. -/
def tell (r : Report) : Action Unit := do
  let _ ← Action.ask (.complain (Text.encode r.message ++ [Text.newline]))
  pure ()

/-- A simple command as one program: the handler behind its verb, and what the shell itself
has to report. -/
def program (table : VerbTable) (command : String) : Action Unit :=
  match tokenize command with
  | [] => pure ()
  | verb :: words =>
    match table.find? verb with
    | none => tell (.unknownVerb verb)
    | some handler => do
      match ← (handler (verb :: words)).attempt with
      | .ok _ => pure ()
      | .error failure => tell (.commandFailed verb failure)

/-- How a line ends whose command ended so. -/
def endingOf {α : Type} : Outcome α → Ending
  | .panicked message => .unwound message
  | _ => .returned

/-- Executing a simple command is running its program. -/
theorem dispatch_eq_run (command : String) (s : Session) :
    (dispatch table command s).1 = endingOf ((program table command).run s.world).1
      ∧ (dispatch table command s).2.world = ((program table command).run s.world).2 := by
  unfold dispatch program
  rcases tokenize command with _ | ⟨verb, words⟩
  · exact ⟨rfl, rfl⟩
  · simp only
    rcases table.find? verb with _ | handler
    · exact ⟨rfl, rfl⟩
    · simp only [Action.run_bind, Action.run_attempt, runHandler]
      rcases (handler (verb :: words)).run s.world with ⟨_ | _ | _, world⟩ <;> exact ⟨rfl, rfl⟩

theorem sameStreams_dispatch (command : String) (s : Session) :
    s.world.SameStreams (dispatch table command s).2.world := by
  rw [(dispatch_eq_run command s).2]
  exact (program table command).run_sameStreams s.world

theorem sameStreams_flushOutput (s : Session) : s.world.SameStreams s.flushOutput.2.world := by
  unfold flushOutput
  split
  · rename_i sink h
    refine ⟨?_, .refl _⟩
    rw [h]
    exact (sink.opening_flush s.world.files).symm
  · exact .refl _

/-- Opening the target of a redirection exchanges the output and changes the files; nothing
else. -/
theorem openOutput_cases {s opened : Session} {path : Path} {mode : Redirection}
    (h : s.openOutput path mode = .ok opened) :
    ∃ handle files, s.world.files.openTarget path mode = .ok (handle, files)
      ∧ opened = { s with world :=
          { s.world with files := files, output := .file ⟨handle, []⟩ } } := by
  obtain ⟨⟨sink, files⟩, hsink, h⟩ := FileSystem.exists_of_bind_eq_ok h
  obtain ⟨⟨handle, files'⟩, htarget, hsink⟩ := FileSystem.exists_of_bind_eq_ok hsink
  injection hsink with hsink
  injection hsink with hsink hfiles
  subst hsink hfiles
  injection h with h
  exact ⟨handle, files', htarget, h.symm⟩

section Compositions

variable {inner : Session → Ending × Session} {right message : String} {s : Session}

/-- A left side that breaks off ends the pipe. -/
theorem pipe_of_unwound (h : (inner (s.withOutput (.capture .empty))).1 = .unwound message) :
    pipe table inner right s
      = (.unwound message,
        (inner (s.withOutput (.capture .empty))).2.withOutput s.world.output) := by
  simp only [pipe, h]

/-- What the left side has printed is what the right side reads. -/
theorem pipe_of_returned (h : (inner (s.withOutput (.capture .empty))).1 = .returned) :
    pipe table inner right s =
      let after := (inner (s.withOutput (.capture .empty))).2
      let restored := after.withOutput s.world.output
      if tokenize right = ["cat"] then
        let ran := dispatch table right (restored.withInput (.memory ⟨after.captured⟩))
        (ran.1, ran.2.withInput after.world.input)
      else (.returned, restored.report (.noConsumer right)) := by
  simp only [pipe, h]
  rfl

theorem redirect_of_error {target : String} {mode : Redirection} {e : IoError}
    (h : s.openOutput (s.world.env.locate target) mode = .error e) :
    redirect inner target mode s = (.returned, s.report (.unwritable target e)) := by
  rw [redirect, h]

/-- Around an inner part the output is exchanged, emptied and put back. -/
theorem redirect_of_opened {target : String} {mode : Redirection} {opened : Session}
    (h : s.openOutput (s.world.env.locate target) mode = .ok opened) :
    redirect inner target mode s =
      let flushed := (inner opened).2.flushOutput
      match (inner opened).1, flushed.1 with
      | .returned, .error e =>
        (.returned, (flushed.2.withOutput s.world.output).report (.unwritable target e))
      | ending, _ => (ending, flushed.2.withOutput s.world.output) := by
  unfold redirect
  generalize s.openOutput (s.world.env.locate target) mode = reached at h
  subst h
  rfl

variable (hinner : ∀ s : Session, s.world.SameStreams (inner s).2.world)
include hinner

/-- A redirection puts back the output that it took away, and the input is left as the inner
part leaves it. -/
theorem redirect_streams (target : String) (mode : Redirection) (s : Session) :
    (redirect inner target mode s).2.world.output = s.world.output
      ∧ s.world.input.SameStream (redirect inner target mode s).2.world.input := by
  unfold redirect
  split
  · exact ⟨rfl, .refl _⟩
  · rename_i opened hopen
    have hinput := (hinner opened).input.trans (sameStreams_flushOutput (inner opened).2).input
    -- opening has left the input alone
    obtain ⟨handle, files, -, rfl⟩ := openOutput_cases hopen
    simp only
    split
    · exact ⟨rfl, hinput⟩
    · exact ⟨rfl, hinput⟩

/-- A pipe puts back both streams: the output behind its left side, the input behind its
right side. -/
theorem pipe_streams (right : String) (s : Session) :
    s.world.SameStreams (pipe table inner right s).2.world := by
  have hleft : s.world.input.SameStream (inner (s.withOutput (.capture .empty))).2.world.input :=
    (hinner (s.withOutput (.capture .empty))).input
  rcases hended : (inner (s.withOutput (.capture .empty))).1 with _ | message
  · rw [pipe_of_returned hended]
    generalize (inner (s.withOutput (.capture .empty))).2 = after at hleft ⊢
    simp only
    split
    · have hright := @sameStreams_dispatch table right
        ((after.withOutput s.world.output).withInput (.memory ⟨after.captured⟩))
      exact ⟨hright.output, hleft⟩
    · exact ⟨.refl _, hleft⟩
  · rw [pipe_of_unwound hended]
    exact ⟨.refl _, hleft⟩

end Compositions

/-- Executing a job leaves the streams that it found, whether it returns or unwinds. -/
theorem sameStreams_execute (job : Job) (s : Session) :
    s.world.SameStreams (execute table job s).2.world := by
  induction job generalizing s with
  | blank => exact .refl _
  | malformed e => exact ⟨.refl _, .refl _⟩
  | simple command => exact sameStreams_dispatch command { s with status := 0 }
  | redirect job target mode ih =>
    obtain ⟨houtput, hinput⟩ := redirect_streams ih target mode { s with status := 0 }
    refine ⟨?_, hinput⟩
    show s.world.output.SameStream
      (redirect (execute table job) target mode { s with status := 0 }).2.world.output
    rw [houtput]
    exact .refl _
  | pipe left right ih => exact pipe_streams ih right { s with status := 0 }

end Session

/-! ## What is carried through the execution of a job -/

/-- A relation between worlds that nothing breaks of which executing a job consists: running a
simple command, exchanging the streams, opening and flushing a file, and a report. -/
structure World.Carried (table : VerbTable) (R : World → World → Prop) : Prop where
  refl : ∀ w, R w w
  trans : ∀ {u v w}, R u v → R v w → R u w
  run : ∀ command w, R w ((Session.program table command).run w).2
  exchange : ∀ (w : World) output input, R w { w with output := output, input := input }
  opened : ∀ {s opened : Session} {path mode},
    s.openOutput path mode = .ok opened → R s.world opened.world
  flushed : ∀ s : Session, R s.world s.flushOutput.2.world
  voiced : ∀ (w : World) data, R w (w.complain data).2

namespace World.Carried

variable {table : VerbTable} {R : World → World → Prop} (hR : World.Carried table R)
include hR

theorem dispatch (command : String) (s : Session) :
    R s.world (Session.dispatch table command s).2.world := by
  rw [(Session.dispatch_eq_run command s).2]
  exact hR.run command s.world

theorem withOutput (s : Session) (output : Output) : R s.world (s.withOutput output).world :=
  hR.exchange s.world output s.world.input

theorem withInput (s : Session) (input : Input) : R s.world (s.withInput input).world :=
  hR.exchange s.world s.world.output input

theorem report (s : Session) (r : Report) : R s.world (s.report r).world :=
  hR.voiced s.world _

/-- The job breaks it as little. -/
theorem execute (job : Job) (s : Session) :
    R s.world (Session.execute table job s).2.world := by
  induction job generalizing s with
  | blank => exact hR.refl _
  | malformed e => exact hR.report { s with status := 0 } _
  | simple command => exact hR.dispatch command { s with status := 0 }
  | redirect job target mode ih =>
    show R s.world (Session.redirect (Session.execute table job) target mode
      { s with status := 0 }).2.world
    unfold Session.redirect
    split
    · exact hR.report { s with status := 0 } _
    · rename_i opened hopen
      have hinner := hR.trans (hR.opened hopen)
        (hR.trans (ih opened) (hR.flushed (Session.execute table job opened).2))
      have hrestored := hR.trans hinner (hR.withOutput _ s.world.output)
      simp only
      split
      · exact hR.trans hrestored (hR.report _ _)
      · exact hrestored
  | pipe left right ih =>
    have hleft := hR.trans (hR.withOutput { s with status := 0 } (.capture .empty))
      (ih ({ s with status := 0 }.withOutput (.capture .empty)))
    show R s.world
      (Session.pipe table (Session.execute table left) right { s with status := 0 }).2.world
    rcases hended : (Session.execute table left
        ({ s with status := 0 }.withOutput (.capture .empty))).1 with _ | message
    · rw [Session.pipe_of_returned hended]
      generalize (Session.execute table left _).2 = after at hleft ⊢
      have hrestored := hR.trans hleft (hR.withOutput after s.world.output)
      simp only
      split
      · have hread := hR.trans hrestored (hR.withInput _ (.memory ⟨after.captured⟩))
        exact hR.trans (hR.trans hread (hR.dispatch right _)) (hR.withInput _ _)
      · exact hR.trans hrestored (hR.report _ _)
    · rw [Session.pipe_of_unwound hended]
      exact hR.trans hleft (hR.withOutput _ _)

end World.Carried

/-! ## Files -/

section Files

/-- A relation between file systems that no change of them breaks. -/
structure FileSystem.Preserved (R : FileSystem → FileSystem → Prop) : Prop where
  refl : ∀ fs, R fs fs
  trans : ∀ {a b c}, R a b → R b c → R a c
  call : ∀ fs call, R fs (fs.perform call).2
  opening : ∀ {fs : FileSystem} {p mode handle after},
    fs.openTarget p mode = .ok (handle, after) → R fs after
  write : ∀ (fs : FileSystem) (h : Handle) (bytes : Bytes), R fs (h.write bytes fs).2.2

variable {R : FileSystem → FileSystem → Prop} (hR : FileSystem.Preserved R)

namespace FileSystem.Preserved

include hR

theorem flush (s : FileSink) (fs : FileSystem) : R fs (s.flush fs).2.2 := by
  have hwrite := hR.write fs s.handle s.held
  unfold FileSink.flush
  split <;> rename_i h <;> rw [h] at hwrite <;> exact hwrite

theorem sink (s : FileSink) (data : Bytes) (fs : FileSystem) : R fs (s.write data fs).2.2 := by
  unfold FileSink.write
  split
  · exact hR.refl fs
  · have hroom : R fs (s.makeRoom data.length fs).2.2 := by
      unfold FileSink.makeRoom
      split
      · exact hR.flush s fs
      · exact hR.refl fs
    unfold FileSink.writeThrough
    revert hroom
    rcases s.makeRoom data.length fs with ⟨_ | _, roomy, after⟩
    · exact id
    · intro hroom
      simp only
      split
      · exact hR.trans hroom (hR.write after roomy.handle data)
      · exact hroom

theorem answer (w : World) (r : Request) : R w.files (w.answer r).2.files := by
  cases r with
  | print data =>
    show R w.files (w.print data).2.files
    unfold World.print
    split
    · exact hR.refl _
    · exact hR.refl _
    · exact hR.sink _ _ _
  | complain data => exact hR.refl _
  | readUntil b =>
    show R w.files (w.readUntil b).2.files
    rw [(w.readUntil_frame b).2.1]
    exact hR.refl _
  | inputLeft => exact hR.refl _
  | confirm question =>
    show R w.files (w.confirm question).2.files
    rw [(w.confirm_frame question).2.2]
    exact hR.refl _
  | environment => exact hR.refl _
  | setEnvironment env => exact hR.refl _
  | files call => exact hR.call _ _

theorem run {α : Type} (a : Action α) (w : World) : R w.files (a.run w).2.files :=
  @Action.run_of_step α (fun u v => R u.files v.files) (fun w => hR.refl w.files)
    (fun h h' => hR.trans h h') hR.answer a w

theorem flushOutput (s : Session) : R s.world.files s.flushOutput.2.world.files := by
  unfold Session.flushOutput
  split
  · exact hR.flush _ _
  · exact hR.refl _

/-- So it is carried through whatever executing a job consists of. -/
theorem carried (table : VerbTable) :
    World.Carried table fun before after => R before.files after.files where
  refl := fun w => hR.refl w.files
  trans := hR.trans
  run := fun command w => hR.run (Session.program table command) w
  exchange := fun w _ _ => hR.refl w.files
  opened := by
    intro s opened path mode hopen
    obtain ⟨handle, files, htarget, rfl⟩ := Session.openOutput_cases hopen
    exact hR.opening htarget
  flushed := hR.flushOutput
  voiced := fun w _ => hR.refl w.files

/-- Executing a job preserves it as well. -/
theorem execute (table : VerbTable) (job : Job) (s : Session) :
    R s.world.files (Session.execute table job s).2.world.files :=
  (hR.carried table).execute job s

end FileSystem.Preserved

end Files

/-- No command and no line makes a sound file system unsound. -/
theorem FileSystem.Sound.preserved :
    FileSystem.Preserved fun fs after => fs.Sound → after.Sound where
  refl := fun _ => id
  trans := fun h h' => h' ∘ h
  call := fun _ call h => h.perform call
  opening := fun hopen h => h.openTarget hopen
  write := fun _ handle bytes h => h.write handle bytes

end LineShell
