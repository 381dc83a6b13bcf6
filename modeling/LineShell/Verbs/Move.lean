/-
Moving files: `mv`.

A move is a rename, and where a rename is refused although the source is a regular
file, it is a copy followed by a removal; that is how a file gets to another volume.  The
two differ where the target is a symbolic link: a rename replaces the link, a copy writes
through it.

Before a move whose target leads to something, the user is asked.  With one source the
target is the destination itself, or the source's name in it if it is a directory.  With
several sources the destination has to be a directory, and each source is moved on its
own: one that fails is reported, and the next one is tried all the same.
-/
import LineShell.Verbs.Entries

set_option autoImplicit false

namespace LineShell.Verbs

open LineShell.Text

/-! ## One move -/

/-- Renames; a regular file that cannot be renamed is copied and removed. -/
def renameOrCopy (source target : Path) : Action (Except IoError Unit) := do
  match ← Action.call (.rename source target) with
  | .ok () => pure (.ok ())
  | .error e =>
    -- tried after every refusal, not only after that of another volume
    if ← Action.isRegular source then
      match ← Action.call (.copy source target) with
      | .ok () => Action.call (.removeFile source)
      | .error e => pure (.error e)
    else pure (.error e)

/-- The question in front of a move onto something. -/
def overwriteQuestion (target : Path) : String :=
  "Overwrite " ++ display (target.fileName?.getD target.bytes) ++ "? (y/n): "

/-- Whether a move onto `target` may go on. -/
def mayOverwrite (target : Path) : Action Bool := do
  if ← Action.isThere target then Action.ask (.confirm (overwriteQuestion target))
  else pure true

/-- Moves one entry to exactly `target`. `shown` is the source as it was typed. -/
def moveEntry (shown : String) (source target : Path) : Action Unit := do
  if ← mayOverwrite target then
    orFail (← renameOrCopy source target) (.cannotMove shown)
    Action.printLine ["Moved: ", shown, " to ", target.display]
  else Action.printLine ["Skipped: ", shown]

/-! ## One source and several -/

/-- Where a source goes when its destination is `dest`. -/
def targetOf (source dest : Path) : Action Path := do
  match source.fileName? with
  | some name => if ← Action.isDirectory dest then pure (dest.join ⟨name⟩) else pure dest
  | none => pure dest

/-- Moves a single source. -/
def moveOne (shown : String) (dest : Path) : Action Int := do
  let source ← Action.locate shown
  if ← Action.isEntry source then
    moveEntry shown source (← targetOf source dest)
    pure 0
  else .fail (.noFile "mv" shown)

/-- Moves one of several sources into the directory `dest`. -/
def moveInto (shown : String) (dest : Path) : Action Unit := do
  let source ← Action.locate shown
  if ← Action.isEntry source then
    match source.fileName? with
    | some name => moveEntry shown source (dest.join ⟨name⟩)
    | none => .fail (.namelessSource shown)
  else .fail (.noFile "mv" shown)

/-- Moves several sources into a directory; the status is 1 if one of them failed. -/
def moveAll (status : Int) (dest : Path) : List String → Action Int
  | [] => pure status
  | shown :: sources => do
    match ← (moveInto shown dest).attempt with
    | .ok () => moveAll status dest sources
    | .error failure =>
      -- if the complaint is not taken, the whole command gives up here
      Action.complain failure.message
      moveAll 1 dest sources

/-- Moves sources to the destination that is called `shown`. -/
def moveTo (sources : List String) (shown : String) : Action Int := do
  let dest ← Action.locate shown
  match sources with
  | [source] => moveOne source dest
  | sources =>
    if ← Action.isDirectory dest then moveAll 0 dest sources
    else .fail (.targetNotDirectory shown)

/-- The verb `mv`. The last operand is the destination. -/
def mv : Builtin where
  verb := "mv"
  signature := Builtin.operandsOnly
  usage := ⟨"mv [paths...]", "move or rename files.", [], []⟩
  body args :=
    match args.operands.reverse with
    | target :: source :: before => moveTo (source :: before).reverse target
    | _ => .fail (.missingOperand "mv")

end LineShell.Verbs
