/-
Printing files: `cat`.

With operands, each file is printed in turn; one that cannot be read gets a line on the error
output and makes the status 1, and the next one is printed all the same.  Without operands
the input is echoed line by line, so that what has been read before the input breaks off
has been printed by then.  Both ways end every text they print with a newline, and
print nothing for an empty one.
-/
import LineShell.Verbs.Builtin

set_option autoImplicit false

namespace LineShell.Verbs

open LineShell.Text

/-- Whether a text is without a newline that it should end in. -/
def lacksNewline (bytes : Bytes) : Bool :=
  !bytes.isEmpty && bytes.getLast? != some newline

/-- Prints a text, and a newline if it does not end in one. -/
def printText (bytes : Bytes) : Action Unit := do
  Action.print bytes
  if lacksNewline bytes then Action.print [newline]

/-- Echoes at most the given number of lines. -/
def echoLines : Nat → Action Unit
  | 0 => .done ()
  | n + 1 => do
    match ← Action.ask (.readUntil newline) with
    | .error e => .fail (.io e)
    | .ok line =>
      -- a line holds its newline, so an empty one is the end of the input
      if line.isEmpty then pure ()
      else
        printText line
        echoLines n

/-- Echoes the input to its end. Every line takes a byte at least, so one round more than
there are bytes meets the end. -/
def echo : Action Unit := do echoLines ((← Action.ask .inputLeft) + 1)

/-- Gives up in the way of a verb that echoes its input. -/
def echoFailure : Failure → Failure
  | .io e => .echoBroke e
  | failure => failure

/-- Prints a file; gives the status that this leads to. -/
def printFile (operand : String) : Action Int := do
  match ← Action.call (.read (← Action.locate operand)) with
  | .ok bytes =>
    printText bytes
    pure 0
  | .error e =>
    Action.complain (Failure.cannotPrint operand e).message
    pure 1

/-- Prints files in order; the status is 1 if one of them could not be read. -/
def printFiles (status : Int) : List String → Action Int
  | [] => pure status
  | operand :: operands => do
    let own ← printFile operand
    printFiles (if own = 0 then status else own) operands

/-- The verb `cat`. -/
def cat : Builtin where
  verb := "cat"
  signature := Builtin.operandsOnly
  usage := ⟨"cat [files...]",
    "print file(s) to the output, or echo the input when no file is given.",
    [], []⟩
  body args :=
    if args.operands.isEmpty then do
      match ← echo.attempt with
      | .ok () => pure 0
      | .error failure => .fail (echoFailure failure)
    else printFiles 0 args.operands

end LineShell.Verbs
