/-
What a session remembers between its lines.

The current directory is a path, not a place in the file system: a relative operand is
put behind its text, and only the result is walked.  It is kept as it was given, so it
may be relative, may spell detours, and may have stopped existing.
-/
import LineShell.Path.Basic

set_option autoImplicit false

namespace LineShell

/-- The state that commands share. -/
structure Environment where
  /-- The directory that relative paths are put behind. -/
  currentDir : Path
  /-- Where the session goes when no directory is named. -/
  home : Option Path
  /-- Whether the session has been asked to end. -/
  exiting : Bool
  deriving DecidableEq, Repr

namespace Environment

/-- The environment of a session that starts in `dir`. -/
def startingIn (dir : Path) (home : Option Path) : Environment := ⟨dir, home, false⟩

/-- A path as seen from the current directory. -/
def resolve (env : Environment) (p : Path) : Path := env.currentDir.join p

/-- An operand as seen from the current directory. -/
def locate (env : Environment) (operand : String) : Path := env.resolve (Path.ofString operand)

end Environment

end LineShell
