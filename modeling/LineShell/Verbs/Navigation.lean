/-
Where the session is and what is there: `pwd`, `cd` and `ls`.

`cd` works on the text of the current directory.  The operand `..` drops the last component
of that text as it stands; any other operand is put behind it and the result is
normalized.  The two differ where the text was not normal to begin with.  Only a path
that leads to a directory is accepted, and nothing but the current directory changes.

`ls` shows names in the order of their bytes.  A name that is not text is shown with
replacement characters, and it is the shown name that is sorted, filtered and
printed, so two entries may share a line's text.
-/
import LineShell.Path.Normal
import LineShell.Verbs.Builtin

set_option autoImplicit false

namespace LineShell.Verbs

open LineShell.Text

/-! ## `pwd` -/

/-- Prints the current directory. -/
def pwd : Builtin where
  verb := "pwd"
  signature := Builtin.nothing
  usage := ⟨"pwd", "print the current working directory.", [], []⟩
  body _ := do
    Action.printLine [(← Action.ask .environment).currentDir.display]
    pure 0

/-! ## `cd` -/

/-- The directory that an operand of `cd` names. -/
def destination (env : Environment) : Option String → Option Path
  | none => env.home
  | some operand =>
    -- the root has no parent, and there `..` stays where it is
    if operand = ".." then some (env.currentDir.parent?.getD env.currentDir)
    else some (env.locate operand).normalize

/-- Changes the current directory, to the home directory when no operand is given. -/
def changeDirectory (operand : Option String) : Action Int := do
  let env ← Action.ask .environment
  match destination env operand with
  | none => .fail (.missingOperand "cd")
  | some dir =>
    if ← Action.isDirectory dir then
      Action.ask (.setEnvironment { env with currentDir := dir })
      Action.printLine ["Changed directory to: ", dir.display]
      pure 0
    else .fail (.noDirectory "cd" dir.display)

/-- The verb `cd`. -/
def cd : Builtin where
  verb := "cd"
  signature := Builtin.operandsOnly
  usage := ⟨"cd [--] [<target...>]", "change the current working directory.",
    ["  target            directory to switch to; absolute or relative to the current",
     "                    directory. Defaults to the home directory when omitted. Only",
     "                    the first one is used."], []⟩
  body args := changeDirectory args.operands.head?

/-! ## `ls` -/

/-- Whether one shown name comes no later than another: by their bytes. -/
def shownBefore (a b : String) : Bool := decide (encode a ≤ encode b)

/-- Whether a shown name begins with a dot. -/
def isHidden (name : String) : Bool := name.toList.head? == some '.'

/-- The names to print for a directory that holds `names`. -/
def listing (names : List Name) (all reversed : Bool) : List String :=
  let shown := (names.map display).filter (fun name => all || !isHidden name)
  let sorted := shown.mergeSort shownBefore
  if reversed then sorted.reverse else sorted

/-- Prints names, one on a line. -/
def printNames : List String → Action Unit
  | [] => .done ()
  | name :: names => do
    Action.printLine [name]
    printNames names

/-- Lists the directory `dir`, which is called `shown` where it cannot be listed. -/
def listDirectory (shown : String) (dir : Path) (all reversed : Bool) : Action Int := do
  if ← Action.isDirectory dir then
    match ← Action.call (.list dir) with
    | .error e => .fail (.unreadable shown e)
    | .ok names =>
      Action.printLine ["Listing directory: ", dir.display]
      printNames (listing names all reversed)
      pure 0
  else .fail (.notListable shown)

/-- The verb `ls`. Without an operand the current directory is listed. -/
def ls : Builtin where
  verb := "ls"
  signature := ⟨[⟨["-a", "--all"], false⟩, ⟨["-r", "--reverse"], false⟩], true⟩
  usage := ⟨"ls [-a] [-r] [--] [<dirs...>]", "list directory contents sorted by name.",
    ["  dirs              directory to list; only the first one is used. Defaults to",
     "                    the current directory."],
    ["  -a, --all         include entries whose names start with a dot.",
     "  -r, --reverse     list in reverse order."]⟩
  body args := do
    let env ← Action.ask .environment
    let all := args.has "-a"
    let reversed := args.has "-r"
    match args.operands with
    | operand :: _ => listDirectory operand (env.locate operand) all reversed
    | [] => listDirectory "." env.currentDir all reversed

end LineShell.Verbs
