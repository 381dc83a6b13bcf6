/-
The program around the shell.

Started without options, the program greets and runs the lines of its input.  It can be told
to run a single line instead, to leave the greeting out, and which prompt to show.  The prompt
is shown only on terminals that cannot edit a line; on any other one it would be drawn by
the line editor, which has nothing to do when the input is not a terminal.

The exit code of a single line tells whether its status was 0.  A run of the whole input ends
with 0 whatever its lines did.
-/
import LineShell.Files.Tree
import LineShell.Session.Script

set_option autoImplicit false

namespace LineShell

open LineShell.Text

namespace Program

/-! ## Options -/

/-- The options of the program. -/
def signature : Signature where
  options :=
    [⟨["--prompt"], true⟩, ⟨["-c", "--command"], true⟩, ⟨["-q", "--quiet"], false⟩,
     ⟨["-d", "--debug"], false⟩]
  operands := false

/-- What the program says about itself. -/
def usage : Usage where
  head := "fsh [--prompt <prompt>] [-c <command>] [-q] [-d]"
  summary := "An interactive shell for everyday file operations."
  operands := []
  options :=
    ["  --prompt          prompt shown before every line.",
     "  -c, --command     run a single command line and exit.",
     "  -q, --quiet       do not print the start-up banner.",
     "  -d, --debug       log debug output to stderr."]

/-- What is printed when the words behind the program's name are refused. -/
def refusal (e : ArgumentError) : String :=
  e.message ++ "\nRun fsh --help for more information.\n"

/-- The greeting. -/
def banner : String := "fsh - type 'help' for available commands.\n"

/-- The prompt that is shown unless another one is asked for. -/
def defaultPrompt : String := "fsh> "

/-! ## Surroundings -/

/-- What the program is started in. -/
structure Surroundings where
  files : FileSystem
  /-- The directory in which the program is started. -/
  directory : Path
  home : Option Path
  /-- The kind of the terminal. -/
  terminal : String
  input : Bytes
  deriving DecidableEq, Repr

/-- The ASCII characters of a text in lower case. -/
def lowercase (s : String) : String := String.ofList (s.toList.map Char.toLower)

/-- Whether a terminal cannot edit a line. -/
def isPlainTerminal (kind : String) : Bool := ["dumb", "cons25", "emacs"].contains (lowercase kind)

/-- The session that the program begins. The current directory is the one the program is started
in, links resolved; it also becomes the base of relative paths. -/
def Surroundings.session (around : Surroundings) : Session :=
  let (files, dir) :=
    match around.files.resolve around.directory with
    -- the location holds no link any more, so its path is the directory's real one
    | .ok (l, .directory) => ({ around.files with base := l }, Location.path l)
    | _ => (around.files, Path.ofString ".")
  { world :=
      { env := .startingIn dir around.home
        files := files
        console := .blank none
        errors := .blank none
        source := .ofBytes around.input
        output := .console
        input := .session
        respondent := .user
        asked := [] }
    status := 0 }

/-! ## Running -/

/-- How the program ended. -/
structure Exit where
  code : Nat
  world : World
  deriving DecidableEq, Repr

/-- Prints on the console. -/
def say (s : Session) (text : String) : Session :=
  { s with world := { s.world with console := (s.world.console.write (encode text)).2 } }

/-- Runs the program with arguments that were accepted. -/
def runWith (args : Arguments) (terminal : String) (s : Session) : Exit :=
  match args.value? "--command" with
  | some line =>
    let (ending, s) := Session.executeLine .standard line s
    ⟨if s.status = 0 ∧ ending = .returned then 0 else 1, s.world⟩
  | none =>
    let s := if args.has "--quiet" then s else say s banner
    let prompt := (args.value? "--prompt").getD defaultPrompt
    let shown := if isPlainTerminal terminal then some prompt else none
    ⟨0, (s.runInput .standard shown).world⟩

/-- Runs the program. -/
def run (words : List String) (around : Surroundings) : Exit :=
  let s := around.session
  match signature.read words with
  | .accepted args => runWith args around.terminal s
  -- the text has a newline of its own, and one more is printed behind it
  | .usage => ⟨0, (say s (usage.text ++ "\n\n")).world⟩
  | .refused e => ⟨1, (s.world.complain (encode (refusal e))).2⟩

end Program

end LineShell
