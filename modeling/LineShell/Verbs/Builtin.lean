/-
What the built-in verbs have in common.

A built-in verb is a body together with a description of its arguments.  Around the body
stand two rules that are the same for every verb.  Words that the description does not
admit never reach the body: they are refused on the error output, or answered with the
usage on the ordinary one.  And a body that gives up is not an error of the shell: its
failure is printed and becomes status 1, so that only a failure of the error output itself
leaves the verb as a failure.
-/
import LineShell.Command.Options
import LineShell.Command.Usage
import LineShell.Session.Action
import LineShell.Text.Space

set_option autoImplicit false

namespace LineShell

open LineShell.Text

/-- What stands behind a verb: a command for each list of words. The words begin with the
verb, and the command ends with a status. -/
abbrev Handler := List String → Action Int

/-- A verb of the shell itself. -/
structure Builtin where
  verb : String
  signature : Signature
  usage : Usage
  /-- What is done with arguments that were accepted. -/
  body : Arguments → Action Int

namespace Builtin

/-- Prints a failure and turns it into status 1. -/
def reporting (body : Action Int) : Action Int := do
  match ← body.attempt with
  | .ok status => pure status
  | .error failure =>
    Action.complain failure.message
    pure 1

/-- Prints the usage. -/
def showUsage (b : Builtin) : Action Int := do
  Action.printLine [b.usage.text]
  pure 0

/-- Refuses the words. -/
def refuse (b : Builtin) (e : ArgumentError) : Action Int := do
  Action.complain (b.verb ++ ": " ++ String.ofList (trimEnd e.message.toList))
  pure 1

/-- The command for a list of words. -/
def handler (b : Builtin) : Handler := fun tokens =>
  match b.signature.read (flagsFirst tokens.tail) with
  | .accepted args => reporting (b.body args)
  | .usage => b.showUsage
  | .refused e => b.refuse e

/-- Arguments of a verb that takes operands and no option. -/
def operandsOnly : Signature := ⟨[], true⟩

/-- Arguments of a verb that takes nothing. -/
def nothing : Signature := ⟨[], false⟩

end Builtin

/-- The first operand; without one the verb gives up. -/
def Arguments.firstOperand (args : Arguments) (verb : String) : Action String :=
  match args.operands with
  | operand :: _ => pure operand
  | [] => .fail (.missingOperand verb)

/-- An operand as seen from the current directory. -/
def Action.locate (operand : String) : Action Path := do
  return (← Action.ask .environment).locate operand

end LineShell
