/-
Streams over a whole run.

A run executes one line after another, and a line whose command breaks off does not end it.
Behind every line the streams are the ones that were there before it, so they are the ones that
the run began with.  Three things follow.  A command that breaks off inside a redirection has
lost nothing: the sink is flushed on the way out, and the handler wrote behind what the
file held.  A plain command later on does not print into any of those files, because the
output is not a file.  And it reads from the input that the run began with, not from what some
pipe had captured.
-/
import LineShell.Proofs.Command.Parsing
import LineShell.Proofs.Session.Flow
import LineShell.Proofs.Verbs.Composed

set_option autoImplicit false

namespace LineShell

open LineShell.Text

/-! ## Tables with registered handlers -/

namespace VerbTable

variable {table : VerbTable} {added : List (String × Handler)} {verb : String} {handler : Handler}

/-- The standard table with further handlers registered, in order. -/
def extended (added : List (String × Handler)) : VerbTable :=
  added.foldl (fun table e => table.register e.1 e.2) standard

theorem mem_of_find? (h : table.find? verb = some handler) : (verb, handler) ∈ table := by
  obtain ⟨before, behind, htable, -⟩ := List.lookup_eq_some_iff.mp h
  rw [htable]
  exact List.mem_append_right before List.mem_cons_self

theorem mem_foldl_register {e : String × Handler}
    (h : e ∈ added.foldl (fun table e => table.register e.1 e.2) table) :
    e ∈ added ∨ e ∈ table := by
  induction added generalizing table with
  | nil => exact .inr h
  | cons first added ih =>
    rcases ih h with hmem | hmem
    · exact .inl (List.mem_cons_of_mem _ hmem)
    · rcases List.mem_cons.mp hmem with rfl | hmem
      · exact .inl List.mem_cons_self
      · exact .inr hmem

/-- What an extended table has behind a verb was registered, or it is the built-in verb of that
name. -/
theorem builtin_of_find?_extended (h : (extended added).find? verb = some handler) :
    (verb, handler) ∈ added ∨ ∃ b ∈ builtins, verb = b.verb ∧ handler = b.handler := by
  rcases mem_foldl_register (mem_of_find? h) with hmem | hmem
  · exact .inl hmem
  · obtain ⟨b, hb, heq⟩ := List.mem_map.mp hmem
    injection heq with hverb hhandler
    exact .inr ⟨b, hb, hverb.symm, hhandler.symm⟩

/-- A handler of an extended table is a registered one or that of a built-in verb. -/
theorem find?_extended (h : (extended added).find? verb = some handler) :
    (verb, handler) ∈ added ∨ ∃ b ∈ builtins, handler = b.handler := by
  rcases builtin_of_find?_extended h with hmem | ⟨b, hb, -, hhandler⟩
  · exact .inl hmem
  · exact .inr ⟨b, hb, hhandler⟩

/-- A handler of the standard table is that of a built-in verb. -/
theorem find?_standard (h : standard.find? verb = some handler) :
    ∃ b ∈ builtins, handler = b.handler :=
  (@find?_extended [] _ _ h).resolve_left List.not_mem_nil

end VerbTable

/-- What the parts of the verbs have, a simple command has as a whole. -/
theorem Session.program_composed {P : (α : Type) → Action α → Prop} (hP : LineComposable P)
    (hset : ∀ env, P _ (Action.ask (.setEnvironment env))) (command : String) :
    P Unit (program .standard command) := by
  have htell : ∀ r, P Unit (tell r) := fun r => hP.bind (hP.voice _) fun _ => hP.pure ()
  unfold program
  split
  · exact hP.pure ()
  · split
    · exact htell _
    · rename_i handler hverb
      obtain ⟨b, hb, rfl⟩ := VerbTable.find?_standard hverb
      refine hP.bind (hP.attempt (Builtin.handler_composed hP hb (fun _ => hset) _)) fun ended => ?_
      rcases ended with failure | status
      · exact htell _
      · exact hP.pure ()

/-! ## Redirections -/

/-- A line that redirects a command, by itself or on the left side of a pipe. -/
def Line.Redirects (line command target : String) (mode : Redirection) : Prop :=
  Line.parse line = .ok (.redirect command target mode)
    ∨ ∃ left right, Line.parse line = .ok (.pipe left right)
      ∧ Line.parse left = .ok (.redirect command target mode)

/-- The world in which a redirected command runs. -/
def World.redirected (w : World) (handle : Handle) (files : FileSystem) : World :=
  { w with files := files, output := .file ⟨handle, []⟩ }

namespace World

variable {w : World} {handle : Handle} {files : FileSystem} {id : FileId}

/-- A redirected command writes behind what the redirection leaves in its file. -/
theorem redirected_writesTo {path : Path} {mode : Redirection} (hsound : w.files.Sound)
    (htarget : w.files.openTarget path mode = .ok (handle, files)) (hid : handle.file? = some id) :
    (w.redirected handle files).WritesTo id
      ∧ (w.redirected handle files).owed id = w.files.keptBy mode id := by
  obtain ⟨hfollows, howed⟩ := FileSink.follows_of_openTarget hsound.numbered htarget hid
  exact ⟨⟨⟨handle, []⟩, rfl, hfollows⟩, howed⟩

end World

namespace Session

variable {table : VerbTable} {s : Session} {command target verb message : String}
  {words : List String} {handler : Handler} {mode : Redirection} {handle : Handle}
  {files : FileSystem} {id : FileId}

/-- Flushing settles what is owed to a regular file. -/
theorem flushOutput_of_writesTo (h : s.world.WritesTo id) :
    (s.flushOutput.2.world.files.data id).content = s.world.owed id := by
  obtain ⟨sink, houtput, hfollows⟩ := h
  obtain ⟨settled, after, hflush, -, -, hcontent⟩ := FileSink.flush_of_follows hfollows
  have hs : s.flushOutput = (.ok (), { s with world :=
      { s.world with files := after, output := .file settled } }) := by
    rw [flushOutput, houtput]
    simp only [hflush]
  rw [hs, World.owed, houtput]
  exact hcontent

/-- A sink on a regular file can be emptied. -/
theorem flushOutput_ok_of_writesTo (h : s.world.WritesTo id) : s.flushOutput.1 = .ok () := by
  obtain ⟨sink, houtput, hfollows⟩ := h
  obtain ⟨settled, after, hflush, -⟩ := FileSink.flush_of_follows hfollows
  rw [flushOutput, houtput]
  simp only [hflush]

theorem dispatch_of_find? (htokens : tokenize command = verb :: words)
    (hverb : table.find? verb = some handler) :
    dispatch table command s = s.runHandler handler verb (verb :: words) := by
  rw [dispatch, htokens]
  simp only [hverb]

theorem openOutput_of_openTarget {path : Path}
    (h : s.world.files.openTarget path mode = .ok (handle, files)) :
    s.openOutput path mode = .ok { s with world := s.world.redirected handle files } := by
  rw [openOutput, FileSystem.openSink, h]
  rfl

/-- A redirected command that breaks off leaves all it had printed in the regular file that was
opened for it. -/
theorem redirect_of_panicked (hsound : s.world.files.Sound)
    (htarget : s.world.files.openTarget (s.world.env.locate target) mode = .ok (handle, files))
    (hid : handle.file? = some id) (htokens : tokenize command = verb :: words)
    (hverb : table.find? verb = some handler)
    (hasks : (handler (verb :: words)).Asks Request.KeepsContents)
    (hrun : ((handler (verb :: words)).run (s.world.redirected handle files)).1
      = .panicked message) :
    (redirect (execute table (.simple command)) target mode s).1 = .unwound message
      ∧ ((redirect (execute table (.simple command)) target mode s).2.world.files.data id).content
        = s.world.files.keptBy mode id
          ++ (handler (verb :: words)).printed (s.world.redirected handle files) := by
  obtain ⟨hwrites, howed⟩ := World.redirected_writesTo hsound htarget hid
  obtain ⟨hafter, hprinted⟩ := Action.run_of_writesTo hasks hwrites
  rcases hworld : (handler (verb :: words)).run (s.world.redirected handle files) with
    ⟨ending, world⟩
  rw [hworld] at hrun hafter hprinted
  simp only at hrun hafter hprinted
  subst hrun
  have hinner : execute table (.simple command) { s with world := s.world.redirected handle files }
      = (.unwound message, { world := world, status := 0 }) := by
    show dispatch table command { world := s.world.redirected handle files, status := 0 } = _
    rw [dispatch_of_find? htokens hverb]
    simp only [runHandler, hworld]
  have hflush := @flushOutput_of_writesTo { world := world, status := 0 } id hafter
  simp only [redirect, openOutput_of_openTarget htarget, hinner]
  refine ⟨trivial, ?_⟩
  rw [← howed, ← hprinted, ← hflush]
  rfl

/-! ## Runs -/

/-- A line that was executed. -/
structure Executed where
  line : String
  before : Session
  ending : Ending
  after : Session

/-- Executes lines in order, and goes on behind a line that broke off. -/
def trace (table : VerbTable) : List String → Session → List Executed
  | [], _ => []
  | line :: lines, s =>
    ⟨line, s, (executeLine table line s).1, (executeLine table line s).2⟩
      :: trace table lines (executeLine table line s).2

namespace Executed

/-- Everything that a redirected command had printed to a regular file before it broke off is in
that file. -/
def KeepsPrinted (x : Executed) (table : VerbTable) : Prop :=
  ∀ command target mode verb words handler handle files id message,
    Line.Redirects x.line command target mode →
    tokenize command = verb :: words → table.find? verb = some handler →
    x.before.world.files.openTarget (x.before.world.env.locate target) mode
      = .ok (handle, files) →
    handle.file? = some id →
    ((handler (verb :: words)).run (x.before.world.redirected handle files)).1
      = .panicked message →
    x.ending = .unwound message
      ∧ (x.after.world.files.data id).content
        = x.before.world.files.keptBy mode id
          ++ (handler (verb :: words)).printed (x.before.world.redirected handle files)

/-- A plain command prints into no file, and what it reads comes from the front of the current
input. -/
def IsPlain (x : Executed) (table : VerbTable) : Prop :=
  ∀ command verb words handler, Line.parse x.line = .ok (.simple command) →
    tokenize command = verb :: words → table.find? verb = some handler →
    x.after.world.files
        = x.before.world.files.performAll ((handler (verb :: words)).calls x.before.world)
      ∧ ∃ taken, x.before.world.unread = taken ++ x.after.world.unread
        ∧ ((handler (verb :: words)).received x.before.world).Sublist taken

end Executed

/-! ## Lines -/

/-- The status is reset before anything is executed. -/
theorem executeLine_status (table : VerbTable) (line : String) (s : Session) (status : Int) :
    executeLine table line { s with status := status } = executeLine table line s := by
  unfold executeLine
  rcases Job.ofText line with _ | _ | _ | _ | _ <;> rfl

theorem executeLine_of_redirect {line : String}
    (h : Line.parse line = .ok (.redirect command target mode)) :
    executeLine table line s
      = redirect (execute table (.simple command)) target mode { s with status := 0 } := by
  rw [executeLine, Job.ofText_eq, h]
  simp only [Job.ofText_of_redirect h]
  rfl

/-- Where the target opens, the command runs with its output going there, and what the sink holds is
written in the end. -/
theorem executeLine_of_opened {line : String}
    (hline : Line.parse line = .ok (.redirect command target mode))
    (hopen : s.world.files.openTarget (s.world.env.locate target) mode = .ok (handle, files)) :
    executeLine table line s =
      let ran := dispatch table command ⟨s.world.redirected handle files, 0⟩
      let flushed := ran.2.flushOutput
      match ran.1, flushed.1 with
      | .returned, .error e =>
        (.returned, (flushed.2.withOutput s.world.output).report (.unwritable target e))
      | ending, _ => (ending, flushed.2.withOutput s.world.output) := by
  have houtput := @openOutput_of_openTarget { s with status := 0 } _ _ _ _ hopen
  rw [executeLine_of_redirect hline, redirect_of_opened houtput]
  rfl

/-- Where the sink can be emptied in the end, the line does nothing behind it. -/
theorem executeLine_of_flushed {line : String}
    (hline : Line.parse line = .ok (.redirect command target mode))
    (hopen : s.world.files.openTarget (s.world.env.locate target) mode = .ok (handle, files))
    (hflush : (dispatch table command ⟨s.world.redirected handle files, 0⟩).2.flushOutput.1
      = .ok ()) :
    executeLine table line s =
      let ran := dispatch table command ⟨s.world.redirected handle files, 0⟩
      (ran.1, ran.2.flushOutput.2.withOutput s.world.output) := by
  rw [executeLine_of_opened hline hopen]
  simp only [hflush]
  rcases (dispatch table command ⟨s.world.redirected handle files, 0⟩).1 with _ | _ <;> rfl

theorem executeLine_of_pipe {line left right : String}
    (h : Line.parse line = .ok (.pipe left right)) :
    executeLine table line s
      = pipe table (executeLine table left) right { s with status := 0 } := by
  rw [executeLine, Job.ofText_eq, h]
  rfl

theorem executeLine_of_simple {line : String} (h : Line.parse line = .ok (.simple command)) :
    executeLine table line s = dispatch table command { s with status := 0 } := by
  rw [executeLine, Job.ofText_eq, h]
  rfl

/-- A line that redirects a command that breaks off. -/
theorem executeLine_of_panicked {line : String} (hline : Line.Redirects line command target mode)
    (hsound : s.world.files.Sound)
    (htarget : s.world.files.openTarget (s.world.env.locate target) mode = .ok (handle, files))
    (hid : handle.file? = some id) (htokens : tokenize command = verb :: words)
    (hverb : table.find? verb = some handler)
    (hasks : (handler (verb :: words)).Asks Request.KeepsContents)
    (hrun : ((handler (verb :: words)).run (s.world.redirected handle files)).1
      = .panicked message) :
    (executeLine table line s).1 = .unwound message
      ∧ ((executeLine table line s).2.world.files.data id).content
        = s.world.files.keptBy mode id
          ++ (handler (verb :: words)).printed (s.world.redirected handle files) := by
  rcases hline with hline | ⟨left, right, hline, hleft⟩
  · rw [executeLine_of_redirect hline]
    exact @redirect_of_panicked _ { s with status := 0 } _ _ _ _ _ _ _ _ _ _ hsound htarget hid
      htokens
      hverb hasks hrun
  · -- the pipe has exchanged the output already, but the redirection exchanges it again
    have hinner := @redirect_of_panicked table
      { s.withOutput (.capture .empty) with status := 0 } _ _ _ _ _ _ _ _ _ _ hsound htarget hid
      htokens hverb hasks hrun
    rw [executeLine_of_pipe hline]
    have hended : (executeLine table left
        (({ s with status := 0 } : Session).withOutput (.capture .empty))).1
          = .unwound message := by
      rw [executeLine_of_redirect hleft]
      exact hinner.1
    rw [pipe_of_unwound hended]
    refine ⟨rfl, ?_⟩
    rw [executeLine_of_redirect hleft]
    exact hinner.2

/-- Every line of a run begins with the streams that the run began with, and with a sound file
system. -/
theorem mem_trace {lines : List String} {x : Executed} (h : x ∈ trace table lines s) :
    s.world.SameStreams x.before.world ∧ (s.world.files.Sound → x.before.world.files.Sound)
      ∧ x.ending = (executeLine table x.line x.before).1
      ∧ x.after = (executeLine table x.line x.before).2 := by
  induction lines generalizing s with
  | nil => exact nomatch h
  | cons line lines ih =>
    rcases List.mem_cons.mp h with rfl | h
    · exact ⟨.refl _, id, rfl, rfl⟩
    · obtain ⟨hstreams, hsound, hending, hafter⟩ := ih h
      have hline := @sameStreams_execute table (Job.ofText line) s
      have hkept := FileSystem.Sound.preserved.execute table (Job.ofText line) s
      exact ⟨hline.trans hstreams, hsound ∘ hkept, hending, hafter⟩

/-- After its handler, a command has at most one report to make. -/
theorem runHandler_cases (handler : Handler) (verb : String) (tokens : List String) (s : Session) :
    ((s.runHandler handler verb tokens).2.world = ((handler tokens).run s.world).2)
      ∨ ∃ data, (s.runHandler handler verb tokens).2.world
          = (((handler tokens).run s.world).2.complain data).2 := by
  unfold runHandler
  rcases (handler tokens).run s.world with ⟨_ | _ | _, world⟩
  · exact .inl rfl
  · exact .inr ⟨_, rfl⟩
  · exact .inl rfl

/-- Where a run began with an output that is not a file, a plain command prints into no file. -/
theorem isPlain_of_mem_trace {lines : List String} {x : Executed} (h : x ∈ trace table lines s)
    (hfileless : s.world.output.IsFileless) : x.IsPlain table := by
  intro command verb words handler hline htokens hverb
  obtain ⟨hstreams, -, -, hafter⟩ := mem_trace h
  have hbefore := hfileless.of_sameStream hstreams.output
  rw [executeLine_of_simple hline, dispatch_of_find? htokens hverb] at hafter
  have hfiles := (handler (verb :: words)).run_files hbefore
  obtain ⟨taken, hunread, hreceived⟩ := (handler (verb :: words)).run_unread x.before.world
  rw [hafter]
  -- a report behind the handler changes neither the files nor the input
  rcases runHandler_cases handler verb (verb :: words) { x.before with status := 0 } with
    hworld | ⟨data, hworld⟩
  · rw [hworld]
    exact ⟨hfiles, taken, hunread, hreceived⟩
  · rw [hworld]
    exact ⟨hfiles, taken, hunread, hreceived⟩

/-- Whatever the handlers of a run do, every line finds the streams that the run began with and
leaves them, returning or not; a redirection leaves the very output that it found. And a plain
command prints into no file and reads what the session's own input has, whatever went before
it. If no registered handler overwrites files by itself, then what a handler had printed to a
regular file before it broke off is in the file. -/
theorem trace_restores_streams {added : List (String × Handler)} {s : Session}
    {lines : List String} {x : Executed} (hx : x ∈ trace (VerbTable.extended added) lines s) :
    s.world.SameStreams x.before.world ∧ x.before.world.SameStreams x.after.world
      ∧ (∀ command target mode, Line.parse x.line = .ok (.redirect command target mode) →
          x.after.world.output = x.before.world.output)
      ∧ ((∀ e ∈ added, ∀ tokens, (e.2 tokens).Asks Request.KeepsContents) →
          s.world.files.Sound → x.KeepsPrinted (VerbTable.extended added))
      ∧ (s.world.output.IsFileless → x.IsPlain (VerbTable.extended added)) := by
  obtain ⟨hstreams, hkept, hending, hafter⟩ := mem_trace hx
  refine ⟨hstreams, ?_, ?_, ?_, isPlain_of_mem_trace hx⟩
  · rw [hafter]
    exact sameStreams_execute _ x.before
  · intro command target mode hline
    rw [hafter, executeLine_of_redirect hline]
    exact (redirect_streams (sameStreams_execute _) target mode { x.before with status := 0 }).1
  · intro hadded hsound command target mode verb words handler handle files id message hline
      htokens hverb htarget hid hrun
    have hasks : (handler (verb :: words)).Asks Request.KeepsContents := by
      rcases VerbTable.find?_extended hverb with hmem | ⟨b, hb, rfl⟩
      · exact hadded _ hmem _
      · -- a built-in verb does not break off
        exact absurd hrun ((Builtin.handler_calm hb _).run_ne_panicked _ message)
    rw [hending, hafter]
    exact executeLine_of_panicked hline (hkept hsound) htarget hid htokens hverb hasks hrun

/-- A handler that prints a word and breaks off. -/
def breaking : Handler := fun _ => do
  Action.print (encode "one")
  .panic "broken"

/-- A session in a file system that holds one empty directory. -/
def quiet : Session where
  world :=
    { env := .startingIn (Path.ofString "/r") none
      files := .fresh (encode "r") []
      console := .blank none
      errors := .blank none
      source := .ofBytes []
      output := .console
      input := .session
      respondent := .scripted []
      asked := [] }
  status := 0

/-- A redirected command breaks off, and a plain one follows. -/
theorem trace_restores_streams_breaking :
    (∀ e ∈ [("break", breaking)], ∀ tokens, (e.2 tokens).Asks Request.KeepsContents)
      ∧ quiet.world.files.Sound
      ∧ ∃ x ∈ trace (VerbTable.extended [("break", breaking)]) ["break > f", "pwd"] quiet,
        x.ending = .unwound "broken" ∧ x.after.world.output = .console
          ∧ (x.after.world.files.data 0).content = encode "one" := by
  have hadded : ∀ e ∈ [("break", breaking)], ∀ tokens, (e.2 tokens).Asks Request.KeepsContents := by
    intro e he tokens
    rw [List.mem_singleton.mp he]
    exact ⟨trivial, fun reply => by rcases reply with _ | _ <;> trivial⟩
  have hsound : quiet.world.files.Sound := FileSystem.sound_fresh (by decide +kernel)
  obtain ⟨-, -, houtput, hprinted, -⟩ :=
    @trace_restores_streams [("break", breaking)] quiet ["break > f", "pwd"] _ List.mem_cons_self
  have hline : Line.parse "break > f" = .ok (.redirect "break" "f" .overwrite) := by decide
  obtain ⟨hending, hcontent⟩ := hprinted hadded hsound "break" "f" .overwrite "break" [] breaking
    (.atOffset 0 0)
    ((quiet.world.files.addFile [encode "f", encode "r"]).2.setContent 0 []) 0 "broken"
    (.inl hline) (by decide +kernel) rfl (by decide +kernel) rfl rfl
  exact ⟨hadded, hsound, _, List.mem_cons_self, hending, houtput _ _ _ hline, hcontent⟩

end Session

end LineShell
