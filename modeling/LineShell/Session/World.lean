/-
What commands act on.

The world of a session is its environment, the file system, and its streams.  Two of the
streams can be exchanged for the time of one command: the current output, which is the
console of the session, a buffer or a file, and the current input, which is the input of
the session or what a pipe has captured.  The console and the session's own input are
always there beside them; a question to the user goes to them even while the output of
the command that asks goes somewhere else.

`World.answer` is where a request meets the world, and `Action.run` is a command's
conversation with it, from the first request to the end.
-/
import LineShell.Session.Action
import LineShell.Stream.Consent
import LineShell.Stream.Console
import LineShell.Stream.FileSink
import LineShell.Stream.Source

set_option autoImplicit false

namespace LineShell

open LineShell.Text

/-! ## Streams -/

/-- Where printed bytes go. -/
inductive Output where
  /-- To the console of the session. -/
  | console
  /-- Into a buffer. -/
  | capture (buffer : CaptureBuffer)
  /-- Into a file. -/
  | file (sink : FileSink)
  deriving DecidableEq, Repr

/-- Where bytes are read from. -/
inductive Input where
  /-- From the input of the session. -/
  | session
  /-- From memory. -/
  | memory (reader : MemoryReader)
  deriving DecidableEq, Repr

/-- Who answers the questions of commands. -/
inductive Respondent where
  /-- The answers are given in advance; when they are used up, the answer is empty. -/
  | scripted (answers : List String)
  /-- The question is printed on the console and the answer is the next line of the
  session's input. -/
  | user
  deriving DecidableEq, Repr

/-- All that commands act on. -/
structure World where
  env : Environment
  files : FileSystem
  /-- The output stream of the session. -/
  console : Console
  /-- The error stream of the session. -/
  errors : Console
  /-- The input stream of the session. The loop over its lines, the questions and the commands that
  read all take from this one stream, and nobody reads ahead. A reader with a buffer of its own,
  which is left out here, would keep from the others what it has fetched and not delivered when it
  stops early. -/
  source : Source
  /-- The current output. -/
  output : Output
  /-- The current input. -/
  input : Input
  respondent : Respondent
  /-- The questions that were asked, the latest last. -/
  asked : List String
  deriving DecidableEq, Repr

namespace World

/-! ## Replies -/

/-- Writes bytes to the current output. -/
def print (w : World) (data : Bytes) : Except IoError Unit × World :=
  match w.output with
  | .console =>
    let (result, console) := w.console.write data
    (result, { w with console := console })
  | .capture buffer => (.ok (), { w with output := .capture (buffer.write data) })
  | .file sink =>
    let (result, sink, files) := sink.write data w.files
    (result, { w with output := .file sink, files := files })

/-- Writes bytes to the error stream. -/
def complain (w : World) (data : Bytes) : Except IoError Unit × World :=
  let (result, errors) := w.errors.write data
  (result, { w with errors := errors })

/-- Reads from the current input up to and including a byte. -/
def readUntil (w : World) (b : UInt8) : Except IoError Bytes × World :=
  match w.input with
  | .session =>
    let (result, source) := w.source.readUntil b
    (result, { w with source := source })
  | .memory reader =>
    let (piece, reader) := reader.readUntil b
    (.ok piece, { w with input := .memory reader })

/-- How many bytes the current input still has. -/
def inputLeft (w : World) : Nat :=
  match w.input with
  | .session => w.source.bytes.length
  | .memory reader => reader.rest.length

/-- The answer that a line of input gives. A line that cannot be read, or that is not
text, declines. -/
def agrees (line : Except IoError Bytes) : Bool :=
  match line with
  | .ok bytes => (decode? bytes).elim false isYes
  | .error _ => false

/-- Puts a question to whoever answers. -/
def confirm (w : World) (question : String) : Bool × World :=
  let w := { w with asked := w.asked ++ [question] }
  match w.respondent with
  | .scripted [] => (isYes "", w)
  | .scripted (answer :: answers) => (isYes answer, { w with respondent := .scripted answers })
  | .user =>
    -- the console and the session's own input, also inside a redirection or a pipe
    let (_, console) := w.console.write (encode question)
    let (line, source) := w.source.readUntil newline
    (agrees line, { w with console := console, source := source })

/-- Replies to a request. -/
def answer (w : World) : (r : Request) → r.Reply × World
  | .print data => w.print data
  | .complain data => w.complain data
  | .readUntil b => w.readUntil b
  | .inputLeft => (w.inputLeft, w)
  | .confirm question => w.confirm question
  | .environment => (w.env, w)
  | .setEnvironment env => ((), { w with env := env })
  | .files call =>
    let (reply, files) := w.files.perform call
    (reply, { w with files := files })

end World

/-! ## Running a command -/

/-- How a command ended. -/
inductive Outcome (α : Type) where
  | done (a : α)
  | failed (failure : Failure)
  | panicked (message : String)
  deriving DecidableEq, Repr

namespace Action

variable {α β : Type}

/-- Runs a command in a world. -/
def run : Action α → World → Outcome α × World
  | .done a, w => (.done a, w)
  | .fail failure, w => (.failed failure, w)
  | .panic message, w => (.panicked message, w)
  | .request r next, w =>
    let (reply, w) := w.answer r
    (next reply).run w

/-- Running one part after the other hands the world from the first to the second. -/
theorem run_bind (m : Action α) (f : α → Action β) (w : World) :
    (m >>= f).run w =
      match m.run w with
      | (.done a, w) => (f a).run w
      | (.failed failure, w) => (.failed failure, w)
      | (.panicked message, w) => (.panicked message, w) := by
  induction m generalizing w with
  | done a => rfl
  | fail failure => rfl
  | panic message => rfl
  | request r next ih => exact ih _ _

/-- Trying a part leaves the same world and reports how it ended. -/
theorem run_attempt (m : Action α) (w : World) :
    m.attempt.run w =
      match m.run w with
      | (.done a, w) => (.done (.ok a), w)
      | (.failed failure, w) => (.done (.error failure), w)
      | (.panicked message, w) => (.panicked message, w) := by
  induction m generalizing w with
  | done a => rfl
  | fail failure => rfl
  | panic message => rfl
  | request r next ih => exact ih _ _

end Action

end LineShell
