/-
The verbs of the shell.

A verb table is an association list, and looking a verb up finds the handler that was put
there last.  The shell begins with its eleven built-in verbs.  Two of them are about
the session itself: `help` prints an overview, and `exit` asks the session to end, which
it does not do before its farewell has been printed.
-/
import LineShell.Verbs.Cat
import LineShell.Verbs.Move
import LineShell.Verbs.Navigation

set_option autoImplicit false

namespace LineShell

open LineShell.Text

namespace Verbs

/-- The verb `exit`. -/
def exit : Builtin where
  verb := "exit"
  signature := Builtin.operandsOnly
  usage := ⟨"exit [args...]", "exit the shell.", [], []⟩
  body _ := do
    -- a farewell that is not taken gives up here, and the session goes on
    Action.print (encode "Exiting...\n")
    Action.ask (.setEnvironment { (← Action.ask .environment) with exiting := true })
    pure 0

/-- The overview of verbs and operators. -/
def overview : String :=
  "\n".intercalate
    ["Available commands:",
     "  pwd                  Print current working directory",
     "  cd [dir]             Change directory (home directory when omitted)",
     "  ls [-a] [-r] [dir]   List directory contents (-a: include dotfiles, -r: reverse order)",
     "  mkdir <dir>          Create a new directory",
     "  rmdir <dir>          Remove an empty directory",
     "  touch <file>         Create a new file or update its timestamp",
     "  mv <src>... <dst>    Move or rename files",
     "  rm <file>            Remove a file",
     "  cat [file...]        Display file contents (echoes input when no file is given)",
     "  exit                 Exit the shell",
     "  help                 Show this help message",
     "Operators:",
     "  cmd > file           Redirect output to file (overwrite)",
     "  cmd >> file          Redirect output to file (append)",
     "  cmd | cat            Pipe the output of one command into another"]

/-- The verb `help`. -/
def help : Builtin where
  verb := "help"
  signature := Builtin.nothing
  usage := ⟨"help", "show the available commands.", [], []⟩
  body _ := do
    Action.printLine [overview]
    pure 0

end Verbs

/-- Handlers by verb. -/
abbrev VerbTable := List (String × Handler)

namespace VerbTable

/-- Puts a handler behind a verb, in place of the one that was there. -/
def register (table : VerbTable) (verb : String) (handler : Handler) : VerbTable :=
  (verb, handler) :: table

/-- The handler behind a verb. -/
def find? (table : VerbTable) (verb : String) : Option Handler := table.lookup verb

/-- The built-in verbs. -/
def builtins : List Builtin :=
  [Verbs.exit, Verbs.help, Verbs.mkdir, Verbs.rmdir, Verbs.touch, Verbs.rm, Verbs.cat, Verbs.mv,
   Verbs.ls, Verbs.pwd, Verbs.cd]

/-- The table that the shell begins with. -/
def standard : VerbTable := builtins.map (fun b => (b.verb, b.handler))

end VerbTable

end LineShell
