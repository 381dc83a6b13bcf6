/-
Usage texts.

A usage text is built from a short description of what a verb or a program takes: one
line that shows the order of the words, one that says what it does, an optional section on
its operands, and one line for each option.  The option that asks for this text is
always the last one.
-/

set_option autoImplicit false

namespace LineShell

/-- What a usage text tells. -/
structure Usage where
  /-- The words in order, as they are typed. -/
  head : String
  /-- What is done. -/
  summary : String
  /-- The lines of the section on operands. -/
  operands : List String
  /-- The lines of the options, the one for help aside. -/
  options : List String
  deriving DecidableEq, Repr

namespace Usage

/-- The section on operands, with an empty line behind it. -/
def operandSection (u : Usage) : List String :=
  if u.operands.isEmpty then [] else "Positional Arguments:" :: u.operands ++ [""]

/-- The lines of a usage text. -/
def lines (u : Usage) : List String :=
  ["Usage: " ++ u.head, "", u.summary, ""] ++ u.operandSection
    ++ "Options:" :: u.options ++ ["  --help, help      display usage information"]

/-- A usage text, without a newline at its end. -/
def text (u : Usage) : String := "\n".intercalate u.lines

end Usage

end LineShell
