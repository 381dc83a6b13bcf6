/-
Answers to yes/no questions.

A command that would replace something asks first.  An answer agrees when the
first character after leading white space is a `y` of either case; everything
else declines, the empty answer and the end of input included, so that silence
never replaces a file.
-/
import LineShell.Text.Space

set_option autoImplicit false

namespace LineShell

open LineShell.Text

/-- Whether an answer agrees. -/
def isYes (answer : String) : Bool :=
  match trimStart answer.toList with
  | c :: _ => c == 'y' || c == 'Y'
  | [] => false

end LineShell
