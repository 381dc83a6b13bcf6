/-
Commands as programs.

A command does not see the session.  It makes requests (print these bytes, read up to a
newline, ask the user, look at the file system) and goes on with the replies.  `Action`
is the tree of these conversations: at each request it branches over every reply that
the session could give, and its leaves say how the command ended.

Two facts about the shell become facts about this type.  A command cannot tell whether its
output goes to the session, to a file or into a pipe, because no reply says so.  And a
command cannot put another stream in the place of the current one, because no request
does; only the shell itself does that, around a whole command.

The tree is inductive, so every command ends.  A loop over the input therefore has to know
beforehand how long it may last, and `inputLeft` is the request that tells it.
-/
import LineShell.Files.Calls
import LineShell.Session.Environment
import LineShell.Session.Failure

set_option autoImplicit false

namespace LineShell

open LineShell.Text

/-! ## Requests and replies -/

/-- What a command can ask of the session. -/
inductive Request where
  /-- Write bytes to the current output. -/
  | print (data : Bytes)
  /-- Write bytes to the error output. -/
  | complain (data : Bytes)
  /-- Read from the current input up to and including a byte. -/
  | readUntil (b : UInt8)
  /-- How many bytes the current input still has. -/
  | inputLeft
  /-- Put a yes/no question to the user. -/
  | confirm (question : String)
  /-- Look at the environment. -/
  | environment
  /-- Replace the environment. -/
  | setEnvironment (env : Environment)
  /-- Make a call on the file system. -/
  | files (call : FileCall)
  deriving DecidableEq, Repr

/-- What the session replies to a request. -/
@[reducible] def Request.Reply : Request → Type
  | .print _ => Except IoError Unit
  | .complain _ => Except IoError Unit
  | .readUntil _ => Except IoError Bytes
  | .inputLeft => Nat
  | .confirm _ => Bool
  | .environment => Environment
  | .setEnvironment _ => Unit
  | .files call => call.Reply

/-! ## Programs -/

/-- A command, or a part of one, that ends with an `α`. -/
inductive Action (α : Type) where
  /-- It ends with a result. -/
  | done (a : α)
  /-- It gives up. -/
  | fail (failure : Failure)
  /-- It breaks off in a way that no command handles. -/
  | panic (message : String)
  /-- It makes a request and goes on with the reply. -/
  | request (r : Request) (next : r.Reply → Action α)

namespace Action

variable {α β : Type}

/-- Runs one part after the other. -/
def bind : Action α → (α → Action β) → Action β
  | .done a, f => f a
  | .fail failure, _ => .fail failure
  | .panic message, _ => .panic message
  | .request r next, f => .request r (fun reply => (next reply).bind f)

instance : Monad Action where
  pure := Action.done
  bind := Action.bind

/-- Runs a part and turns giving up into a value. Breaking off is not caught. -/
def attempt : Action α → Action (Except Failure α)
  | .done a => .done (.ok a)
  | .fail failure => .done (.error failure)
  | .panic message => .panic message
  | .request r next => .request r (fun reply => (next reply).attempt)

/-- Makes a single request. -/
def ask (r : Request) : Action r.Reply := .request r .done

/-- Gives up if an operation on a stream failed. -/
def orGiveUp : Except IoError α → Action α
  | .ok a => .done a
  | .error e => .fail (.io e)

/-! ## Writing -/

/-- Prints bytes; gives up if they are not taken. -/
def print (data : Bytes) : Action Unit := do orGiveUp (← ask (.print data))

/-- Prints pieces one after the other; gives up at the first that is not taken. -/
def printAll : List Bytes → Action Unit
  | [] => .done ()
  | piece :: pieces => do
    print piece
    printAll pieces

/-- Prints a text made of several pieces, and a newline. -/
def printLine (pieces : List String) : Action Unit :=
  printAll (pieces.map encode ++ [[newline]])

/-- Writes a text and a newline to the error output; gives up if they are not taken. -/
def complain (message : String) : Action Unit := do
  orGiveUp (← ask (.complain (encode message ++ [newline])))

/-! ## Files -/

/-- Makes a call on the file system. -/
def call (c : FileCall) : Action c.Reply := ask (.files c)

/-- Whether a path leads to anything. -/
def isThere (p : Path) : Action Bool := do
  match ← call (.status p) with
  | .ok _ => pure true
  | .error _ => pure false

/-- Whether a path leads to a directory. -/
def isDirectory (p : Path) : Action Bool := do
  match ← call (.status p) with
  | .ok kind => pure (kind == .directory)
  | .error _ => pure false

/-- Whether a path leads to a regular file. -/
def isRegular (p : Path) : Action Bool := do
  match ← call (.status p) with
  | .ok kind => pure (kind == .regular)
  | .error _ => pure false

/-- Whether a path names an entry, a link in last place not followed. -/
def isEntry (p : Path) : Action Bool := do
  match ← call (.entryStatus p) with
  | .ok _ => pure true
  | .error _ => pure false

end Action

end LineShell
