/-
Executing lines.

Executing a job is what changes a session.  A simple command is handed to the handler behind
its verb, which runs in the world of the session.  Around that stand the two compositions,
and both follow one pattern: another stream is put in the place of the current one, the
inner part is executed, and the former stream is put back whatever happened.  This
includes a command that breaks off: it unwinds through every composition, and each of them
restores its stream on the way.

The status is that of the last command that ended.  It is reset when the execution of a line
begins, also of a line inside a composition, and it becomes 1 whenever the shell itself
has something to report.
-/
import LineShell.Command.Job
import LineShell.Session.World
import LineShell.Verbs.Table

set_option autoImplicit false

namespace LineShell

open LineShell.Text

/-! ## Sessions -/

/-- A session between two lines. -/
structure Session where
  world : World
  /-- The status of the last line. -/
  status : Int
  deriving DecidableEq, Repr

/-- What the shell itself has to report. -/
inductive Report where
  | malformed (e : LineError)
  | unknownVerb (verb : String)
  /-- The right side of a pipe is not a verb that reads what was piped. -/
  | noConsumer (right : String)
  /-- The target of a redirection cannot be written to. -/
  | unwritable (target : String) (e : IoError)
  | commandFailed (verb : String) (failure : Failure)
  | unreadableLine (e : IoError)
  deriving DecidableEq, Repr

/-- What is printed for a report. -/
def Report.message : Report → String
  | .malformed e => e.message
  | .unknownVerb verb => "Unknown command: " ++ verb
  | .noConsumer right => "Unknown command for piped input: " ++ right
  | .unwritable target e =>
    "Error with file redirection: Unable to write to " ++ target ++ ": " ++ e.message
  | .commandFailed verb failure => verb ++ ": " ++ failure.message
  | .unreadableLine e => "Error reading input: " ++ e.message

/-- How the execution of a line ended. -/
inductive Ending where
  | returned
  /-- A command broke off. -/
  | unwound (message : String)
  deriving DecidableEq, Repr

namespace Session

/-- Prints a report. Whether the error stream takes it makes no difference. -/
def report (s : Session) (r : Report) : Session :=
  { world := (s.world.complain (encode r.message ++ [newline])).2, status := 1 }

/-! ## Simple commands -/

/-- Runs a handler on the words of a command. -/
def runHandler (handler : Handler) (verb : String) (tokens : List String) (s : Session) :
    Ending × Session :=
  match (handler tokens).run s.world with
  | (.done status, world) => (.returned, ⟨world, status⟩)
  | (.failed failure, world) =>
    (.returned, { s with world := world }.report (.commandFailed verb failure))
  | (.panicked message, world) => (.unwound message, { s with world := world })

/-- Executes a simple command. Operators in it are passed on as words. -/
def dispatch (table : VerbTable) (command : String) (s : Session) : Ending × Session :=
  match tokenize command with
  -- nothing to execute, and nothing that would set the status
  | [] => (.returned, s)
  | verb :: words =>
    match table.find? verb with
    | none => (.returned, s.report (.unknownVerb verb))
    | some handler => s.runHandler handler verb (verb :: words)

/-! ## Exchanged streams -/

/-- Puts an output in the place of the current one. -/
def withOutput (s : Session) (output : Output) : Session :=
  { s with world := { s.world with output := output } }

/-- Puts an input in the place of the current one. -/
def withInput (s : Session) (input : Input) : Session :=
  { s with world := { s.world with input := input } }

/-- Opens the target of a redirection and makes it the current output. -/
def openOutput (s : Session) (path : Path) (mode : Redirection) : Except IoError Session := do
  let (sink, files) ← s.world.files.openSink path mode
  .ok { s with world := { s.world with files := files, output := .file sink } }

/-- Writes what a file output still holds. -/
def flushOutput (s : Session) : Except IoError Unit × Session :=
  match s.world.output with
  | .file sink =>
    let (result, sink, files) := sink.flush s.world.files
    (result, { s with world := { s.world with files := files, output := .file sink } })
  | _ => (.ok (), s)

/-- What the current output has captured. -/
def captured (s : Session) : Bytes :=
  match s.world.output with
  | .capture buffer => buffer.bytes
  | _ => []

/-! ## Compositions -/

/-- Executes something with its output going to a file. The target is looked up before, and
if it cannot be opened nothing is executed. -/
def redirect (inner : Session → Ending × Session) (target : String) (mode : Redirection)
    (s : Session) : Ending × Session :=
  match s.openOutput (s.world.env.locate target) mode with
  | .error e => (.returned, s.report (.unwritable target e))
  | .ok opened =>
    let (ending, after) := inner opened
    -- flushed in every case: what was printed before a command broke off is in the file
    let (flushed, after) := after.flushOutput
    let restored := after.withOutput s.world.output
    match ending, flushed with
    -- the flush decides the status even if the command ended well
    | .returned, .error e => (.returned, restored.report (.unwritable target e))
    | ending, _ => (ending, restored)

/-- Executes something, keeps what it prints, and offers it to `right`, which has to be the
one verb that reads its input, without operands. -/
def pipe (table : VerbTable) (left : Session → Ending × Session) (right : String)
    (s : Session) : Ending × Session :=
  let (ending, after) := left (s.withOutput (.capture .empty))
  let piped := after.captured
  let restored := after.withOutput s.world.output
  match ending with
  | .unwound message => (.unwound message, restored)
  | .returned =>
    -- the left side has run by now, whatever the right side turns out to be
    if tokenize right = ["cat"] then
      let (ending, after) := dispatch table right (restored.withInput (.memory ⟨piped⟩))
      (ending, after.withInput restored.world.input)
    else (.returned, restored.report (.noConsumer right))

/-- Executes a job. -/
def execute (table : VerbTable) : Job → Session → Ending × Session
  | .blank, s => (.returned, { s with status := 0 })
  | .malformed e, s => (.returned, { s with status := 0 }.report (.malformed e))
  | .simple command, s => dispatch table command { s with status := 0 }
  | .redirect job target mode, s =>
    redirect (execute table job) target mode { s with status := 0 }
  | .pipe left right, s => pipe table (execute table left) right { s with status := 0 }

/-- Executes a line. -/
def executeLine (table : VerbTable) (line : String) (s : Session) : Ending × Session :=
  execute table (Job.ofText line) s

end Session

end LineShell
