/-
Paths as texts.

A path is a byte string, and almost everything the shell does with one is done to
the text alone: no file system is consulted here.  Two readings of the text are
used.  Its *components* ignore repeated and trailing slashes and every `.` but a
leading one, because none of these changes which file is meant.  Its *text* keeps
them, and joining works on the text, because the operating system does care about
a trailing slash and a message shows the path as it was typed.

The last component decides two questions.  Only a plain name can be carried over
to another directory (`fileName?`), and the directory above a path is what is left
of its text without the last component (`parent?`).
-/
import LineShell.Text.Split
import LineShell.Text.Utf8

set_option autoImplicit false

namespace LineShell

open LineShell.Text

/-- A path: any bytes. -/
structure Path where
  /-- The path as it was typed. -/
  bytes : Bytes
  deriving DecidableEq, Repr

namespace Path

/-- The byte `/`. -/
def slash : UInt8 := 47

/-- The byte `.`. -/
def dot : UInt8 := 46

/-- The path with this text. -/
def ofString (s : String) : Path := ⟨encode s⟩

/-- A path as it is shown. -/
def display (p : Path) : String := Text.display p.bytes

/-- Whether a path starts at the root. -/
def isAbsolute (p : Path) : Bool := p.bytes.head? == some slash

/-! ## Components -/

/-- One component of a path. -/
inductive Component where
  /-- The `/` of an absolute path. -/
  | root
  /-- A leading `.` of a relative path. -/
  | here
  /-- The component `..`. -/
  | up
  /-- A plain name. -/
  | name (n : Bytes)
  deriving DecidableEq, Repr

/-- The texts between the slashes. -/
def segments (p : Path) : List Bytes := split (· == slash) p.bytes

/-- What a text between two slashes stands for: nothing if it is empty or `.`. -/
def Component.ofSegment (segment : Bytes) : List Component :=
  if segment = [] ∨ segment = [dot] then []
  else if segment = [dot, dot] then [.up]
  else [.name segment]

/-- How a path begins: at the root, at a `.`, or with an ordinary component. -/
inductive Lead where
  | root
  | here
  | plain
  deriving DecidableEq, Repr

/-- How a path begins. -/
def lead (p : Path) : Lead :=
  if p.isAbsolute then .root
  else if p.segments.head? = some [dot] then .here
  else .plain

/-- The component that the beginning of a path stands for. -/
def Lead.components : Lead → List Component
  | .root => [.root]
  | .here => [.here]
  | .plain => []

/-- The components of a path, from the left. -/
def components (p : Path) : List Component :=
  p.lead.components ++ p.segments.flatMap Component.ofSegment

/-! ## Joining -/

/-- The path `right` seen from `base`. An absolute path replaces the base;
otherwise the texts are put together, with one slash between them unless the base
is empty or ends in one. -/
def join (base right : Path) : Path :=
  if right.isAbsolute then right
  else if base.bytes = [] ∨ base.bytes.getLast? = some slash then ⟨base.bytes ++ right.bytes⟩
  else ⟨base.bytes ++ slash :: right.bytes⟩

/-! ## The last component -/

/-- Whether a text between two slashes stands for nothing. -/
def isVoid (segment : Bytes) : Bool := segment == [] || segment == [dot]

/-- The text of the beginning of a path. -/
def Lead.bytes : Lead → Bytes
  | .root => [slash]
  | .here => [dot]
  | .plain => []

/-- The segments behind the beginning of a path, from the right. A path that
begins at a `.` has the slash behind the dot in its rest. -/
def restFromRight (p : Path) : List Bytes :=
  (split (· == slash) (p.bytes.drop p.lead.bytes.length)).reverse

/-- The text without its last component and without what that leaves over at its
end: repeated slashes and `.` components go, everything further left is kept as it
was typed. The root and the empty path have no parent. -/
def parent? (p : Path) : Option Path :=
  match p.restFromRight.dropWhile isVoid with
  -- only the beginning is left, and of a beginning only the `.` is a last component
  | [] => if p.lead = .here then some ⟨[]⟩ else none
  | _ :: before =>
    some ⟨p.lead.bytes ++ Text.join slash (before.dropWhile isVoid).reverse⟩

/-- The last component, if it is a plain name. -/
def fileName? (p : Path) : Option Bytes :=
  match p.components.getLast? with
  | some (.name n) => some n
  | _ => none

end Path

end LineShell
