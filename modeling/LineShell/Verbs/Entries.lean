/-
One entry made or removed: `mkdir`, `rmdir`, `touch` and `rm`.

Each of these verbs looks at its first operand alone and either makes its one change and
says so, or changes nothing and says why.  Each looks before it acts, because the shell
words the ordinary mistakes itself; what the operating system refuses after that is passed
on in its own words.  The looking follows links where the acting does not: `rmdir` on a link
to a directory passes the first test and is refused by the second.
-/
import LineShell.Verbs.Builtin

set_option autoImplicit false

namespace LineShell.Verbs

/-- Gives up with the failure that an error of the file system leads to. -/
def orFail {α : Type} (result : Except IoError α) (failure : IoError → Failure) : Action α :=
  match result with
  | .ok a => .done a
  | .error e => .fail (failure e)

/-! ## Directories -/

/-- Makes a directory where nothing is. -/
def makeDirectory (operand : String) : Action Int := do
  let p ← Action.locate operand
  if ← Action.isThere p then .fail (.directoryExists operand)
  else
    orFail (← Action.call (.makeDirectory p)) (.cannotCreate operand)
    Action.printLine ["Directory created: ", operand]
    pure 0

/-- The verb `mkdir`. -/
def mkdir : Builtin where
  verb := "mkdir"
  signature := Builtin.operandsOnly
  usage := ⟨"mkdir [--] [<dir...>]", "create a directory.",
    ["  dir               directory to create; its parent must exist. Further",
     "                    arguments are ignored."], []⟩
  body args := do makeDirectory (← args.firstOperand "mkdir")

/-- Removes a directory that holds nothing. -/
def removeDirectory (operand : String) : Action Int := do
  let p ← Action.locate operand
  if ← Action.isDirectory p then
    -- looked at beforehand, because the shell has its own words for this mistake
    let names ← orFail (← Action.call (.list p)) (.cannotRemoveDirectory operand)
    if names.isEmpty then
      orFail (← Action.call (.removeDirectory p)) (.cannotRemoveDirectory operand)
      Action.printLine ["Directory removed: ", operand]
      pure 0
    else .fail (.notEmpty operand)
  else .fail (.noDirectory "rmdir" operand)

/-- The verb `rmdir`. -/
def rmdir : Builtin where
  verb := "rmdir"
  signature := Builtin.operandsOnly
  usage := ⟨"rmdir [--] [<dir...>]", "remove an empty directory.",
    ["  dir               directory to remove; further arguments are ignored."], []⟩
  body args := do removeDirectory (← args.firstOperand "rmdir")

/-! ## Files -/

/-- Creates a file, or changes the time of an existing one. -/
def touchFile (operand : String) : Action Int := do
  let p ← Action.locate operand
  orFail (← Action.call (.touch p)) (.cannotTouch operand)
  Action.printLine ["File created/updated: ", operand]
  pure 0

/-- The verb `touch`. -/
def touch : Builtin where
  verb := "touch"
  signature := Builtin.operandsOnly
  usage := ⟨"touch [--] [<file...>]", "create a file or update its modification time.",
    ["  file              file to create or touch; further arguments are ignored."], []⟩
  body args := do touchFile (← args.firstOperand "touch")

/-- Removes an entry that is not a directory. -/
def removeFile (operand : String) : Action Int := do
  let p ← Action.locate operand
  match ← Action.call (.entryStatus p) with
  | .error _ => .fail (.noFile "rm" operand)
  | .ok .directory => .fail (.removeIsDirectory operand)
  | .ok _ =>
    orFail (← Action.call (.removeFile p)) (.cannotRemove operand)
    Action.printLine ["File removed: ", operand]
    pure 0

/-- The verb `rm`. -/
def rm : Builtin where
  verb := "rm"
  signature := Builtin.operandsOnly
  usage := ⟨"rm [--] [<file...>]", "remove a file.",
    ["  file              file to remove; directories are refused. Further arguments",
     "                    are ignored."], []⟩
  body args := do removeFile (← args.firstOperand "rm")

end LineShell.Verbs
