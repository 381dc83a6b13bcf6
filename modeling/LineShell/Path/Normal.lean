/-
Lexical normalization.

A path is normal when it spells no detour: no `.`, no slash too many, and no
`name/..`.  Normalizing walks the components from the left with a stack.  A name
is put on it, a `.` does nothing, and a `..` takes the name on top away.  Where
there is no name to take away, the beginning decides: above the root there is
only the root again, so the `..` is dropped, while a relative path really does
leave the directory it starts from, so the `..` is kept.

The file system is not asked.  A `..` behind a symbolic link therefore cancels
the link's own name, not the last name of what the link points to.
-/
import LineShell.Path.Basic

set_option autoImplicit false

namespace LineShell.Path

open LineShell.Text

/-- Takes one more component into a stack of components, whose top comes first. -/
def pushComponent (stack : List Component) : Component → List Component
  | .here => stack
  | .up =>
    match stack with
    | .name _ :: below => below
    | .root :: below => .root :: below
    -- nothing to take away: the start, or a `..` that was kept before
    | _ => .up :: stack
  | c => c :: stack

/-- The stack that the components of a path leave. -/
def reduce (cs : List Component) : List Component := cs.foldl pushComponent []

/-- The text of one component. -/
def Component.bytes : Component → Bytes
  | .root => []
  | .here => [dot]
  | .up => [dot, dot]
  | .name n => n

/-- The path with the given components. -/
def ofComponents : List Component → Path
  | .root :: rest => ⟨slash :: Text.join slash (rest.map Component.bytes)⟩
  | cs => ⟨Text.join slash (cs.map Component.bytes)⟩

/-- The normal form of a path. -/
def normalize (p : Path) : Path := ofComponents (reduce p.components).reverse

end LineShell.Path
