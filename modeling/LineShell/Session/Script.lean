/-
Running a whole input.

A session that is not typed at reads its lines from its own input, which its commands
read as well: a command that echoes its input takes the lines behind it.  The loop ends when
the input does, or after the line that asked for it.  Each round takes at least one byte
from the input, so there are no more rounds than bytes, and one more to meet the end.

A line that is not well-formed text is reported and skipped.  In every other line the
backspaces are applied before it is executed: each erases the user-perceived character
in front of it.
-/
import LineShell.Session.Execute
import LineShell.Text.Cluster

set_option autoImplicit false

namespace LineShell

open LineShell.Text

/-- A line of input without its line end: a newline, or a carriage return and a newline. -/
def chopLineEnd (cs : List Char) : List Char :=
  match cs.reverse with
  | '\n' :: '\r' :: before => before.reverse
  | '\n' :: before => before.reverse
  | _ => cs

/-- The line that the bytes of one line of input ask to execute, if they are text. -/
def lineOfInput? (bytes : Bytes) : Option String :=
  (decode? bytes).map (fun s => String.ofList (applyBackspaces (chopLineEnd s.toList)))

namespace Session

/-- Prints a prompt, if there is one to be printed. -/
def showPrompt (s : Session) (prompt : Option String) : Session :=
  match prompt with
  | none => s
  | some prompt =>
    { s with world := { s.world with console := (s.world.console.write (encode prompt)).2 } }

/-- Takes the next line from the session's own input. -/
def nextLine (s : Session) : Except IoError Bytes × Session :=
  let (line, source) := s.world.source.readUntil newline
  (line, { s with world := { s.world with source := source } })

/-- Runs at most the given number of lines. -/
def runLines (table : VerbTable) (prompt : Option String) : Nat → Session → Session
  | 0, s => s
  | rounds + 1, s =>
    if s.world.env.exiting then s
    else
      match (s.showPrompt prompt).nextLine with
      | (.error e, s) => s.report (.unreadableLine e)
      -- even an empty line has its newline, so no bytes at all mean the end
      | (.ok [], s) => s
      | (.ok bytes, s) =>
        match lineOfInput? bytes with
        -- the line has been consumed, so the loop goes on behind it
        | none => runLines table prompt rounds (s.report (.unreadableLine .notText))
        | some line =>
          match executeLine table line s with
          | (.returned, s) => runLines table prompt rounds s
          | (.unwound _, s) => s

/-- Runs the lines of the session's own input. -/
def runInput (table : VerbTable) (prompt : Option String) (s : Session) : Session :=
  runLines table prompt (s.world.source.bytes.length + 1) s

end Session

end LineShell
