/-
Command lines.

The shell composes commands with three operators.  They are looked for in the raw
text, before anything is cut into words, so an operator never ends up inside an
argument and there is nothing to quote.  A `|` decides first: a line that holds one
is a pipe, and only a line without one can be a redirection.

Each operator has exactly one place on a line and a text on both of its sides.
Anything else is refused as a whole, with the operator that was meant: a line
with two neighbouring `>` meant `>>`.
-/
import LineShell.Text.Space

set_option autoImplicit false

namespace LineShell

open LineShell.Text

/-! ## What a line is -/

/-- How a redirection treats what its target holds. -/
inductive Redirection where
  /-- The target is emptied first. -/
  | overwrite
  /-- The output goes behind what is there. -/
  | append
  deriving DecidableEq, Repr

/-- The operator that is written for a redirection. -/
def Redirection.operator : Redirection → String
  | .overwrite => ">"
  | .append => ">>"

/-- A line by its operator. Every text in it is trimmed and not empty. -/
inductive Line where
  | blank
  | simple (command : String)
  | pipe (left right : String)
  | redirect (command target : String) (mode : Redirection)
  deriving DecidableEq, Repr

/-- What is wrong with a line that uses an operator. -/
inductive LineError where
  | badPipe
  | badRedirection (mode : Redirection)
  deriving DecidableEq, Repr

/-- What the shell prints about a malformed line. -/
def LineError.message : LineError → String
  | .badPipe => "Invalid pipe command. Use format: command1 | command2"
  | .badRedirection mode =>
    "Invalid redirect command. Use format: command " ++ mode.operator ++ " file"

/-! ## Reading a line -/

/-- The character `|`. -/
def isPipe (c : Char) : Bool := c == '|'

/-- The character `>`. -/
def isArrow (c : Char) : Bool := c == '>'

namespace Line

/-- Reads a trimmed text that holds a `|`. -/
def ofPipe (cs : List Char) : Except LineError Line :=
  match (split isPipe cs).map trim with
  | [left, right] =>
    if left = [] ∨ right = [] then .error .badPipe
    else .ok (.pipe (String.ofList left) (String.ofList right))
  | _ => .error .badPipe

/-- The redirection that a text with a `>` means. -/
def modeOf (cs : List Char) : Redirection :=
  if hasPair isArrow cs then .append else .overwrite

/-- Cuts a text at the operator of a redirection. -/
def cutAt : Redirection → List Char → List (List Char)
  | .overwrite => split isArrow
  | .append => splitPairs isArrow

/-- Reads a trimmed text that holds a `>` and no `|`. A `>` that is left over beside
the operator spoils the line. -/
def ofRedirection (cs : List Char) : Except LineError Line :=
  -- the operator is decided first, by what stands anywhere on the line
  let mode := modeOf cs
  match (cutAt mode cs).map trim with
  | [command, target] =>
    if command = [] ∨ target = [] ∨ command.any isArrow ∨ target.any isArrow then
      .error (.badRedirection mode)
    else .ok (.redirect (String.ofList command) (String.ofList target) mode)
  | _ => .error (.badRedirection mode)

/-- Reads the characters of a line. -/
def ofChars (text : List Char) : Except LineError Line :=
  let cs := trim text
  if cs = [] then .ok .blank
  else if cs.any isPipe then ofPipe cs
  else if cs.any isArrow then ofRedirection cs
  else .ok (.simple (String.ofList cs))

/-- Reads a raw line. -/
def parse (s : String) : Except LineError Line := ofChars s.toList

end Line

/-- The words of a simple command. The first one is its verb. -/
def tokenize (s : String) : List String := (words s.toList).map String.ofList

end LineShell
