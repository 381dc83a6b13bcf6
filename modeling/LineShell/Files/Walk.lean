/-
Walking a path.

The operating system reads a path step by step, from the root or from the base
directory.  A name steps into a directory, `..` steps out of one, and a symbolic
link in the middle is replaced by the steps of its target, which are walked from
where the link stands.  A walk stops before its last step, because the calls differ
in what they do with it: one wants what stands there, one wants nothing to stand
there, one does not care.  So a walk ends at a *spot*, the directory it reached
together with the step that is left.

A link in last place is followed or not, by the purpose of the walk, and a slash
behind the last step changes the answer: it asks for a directory, so a
question that would have stopped at the link follows it, and a call that would have
created something is refused.

At most forty links are followed.  This bounds the walk, and it is how a walk that runs
in a circle ends.  It is also why the definitions below are structural: each link
spends one from the budget, and between two links the list of steps gets shorter.
-/
import LineShell.Files.Store

set_option autoImplicit false

namespace LineShell

open LineShell.Text

/-! ## Steps -/

/-- One step of a walk. -/
inductive Step where
  | here
  | up
  | name (n : Name)
  deriving DecidableEq, Repr

/-- The step that a text between two slashes asks for. -/
def Step.ofSegment? (segment : Bytes) : Option Step :=
  if segment = [] then none
  else if segment = [Path.dot] then some .here
  else if segment = [Path.dot, Path.dot] then some .up
  else some (.name segment)

/-- The steps of a path. -/
def Path.steps (p : Path) : List Step := p.segments.filterMap Step.ofSegment?

/-- Whether a path ends in a slash. -/
def Path.endsInSlash (p : Path) : Bool := p.bytes.getLast? == some Path.slash

/-! ## Spots -/

/-- The step that a walk leaves to the call. -/
inductive LastStep where
  /-- There is none: the path is the root. -/
  | root
  | here
  | up
  | name (n : Name)
  deriving DecidableEq, Repr

/-- Where a walk ends. -/
structure Spot where
  /-- The directory that was reached. -/
  dir : Location
  /-- The step that is left. -/
  last : LastStep
  /-- Whether a slash stands behind it. -/
  slash : Bool
  deriving DecidableEq, Repr

/-- What a walk is for. -/
inductive Purpose where
  /-- To find what the path means. -/
  | follow
  /-- To find the entry itself, a link included. -/
  | stay
  /-- To open a file that may have to be created. -/
  | create
  /-- To add, remove or rename an entry. -/
  | parent
  deriving DecidableEq, Repr

/-- Whether a link in last place is followed. -/
def Purpose.followsLast (purpose : Purpose) (slash : Bool) : Bool :=
  match purpose with
  | .follow => true
  | .stay => slash
  | .create => !slash
  | .parent => false

/-! ## The walk -/

/-- The longest name that a directory can hold. -/
def maxName : Nat := 255

/-- How many links one walk follows. -/
def maxLinks : Nat := 40

namespace FileSystem

/-- Walks until a link has to be followed, which `onLink` does: it is given the
directory of the link, its target, the steps behind it, and whether a slash stands
behind the last one. -/
def walkSteps (fs : FileSystem) (purpose : Purpose)
    (onLink : Location → Path → List Step → Bool → Except Errno Spot) (slash : Bool) :
    Location → List Step → Except Errno Spot
  | dir, [] => .ok ⟨dir, .root, slash⟩
  | dir, [.here] => .ok ⟨dir, .here, slash⟩
  | dir, [.up] => .ok ⟨dir, .up, slash⟩
  | dir, [.name n] =>
    match fs.node? (n :: dir) with
    | some (.link target) =>
      if purpose.followsLast slash then onLink dir target [] slash
      else .ok ⟨dir, .name n, slash⟩
    | _ => .ok ⟨dir, .name n, slash⟩
  -- from here on more steps follow, so what is met has to be a directory or lead to one
  | dir, .here :: rest => walkSteps fs purpose onLink slash dir rest
  | dir, .up :: rest => walkSteps fs purpose onLink slash dir.tail rest
  | dir, .name n :: rest =>
    if maxName < n.length then .error .nameTooLong
    else
      match fs.node? (n :: dir) with
      | none => .error .noEntry
      | some .directory => walkSteps fs purpose onLink slash (n :: dir) rest
      | some (.link target) => onLink dir target rest slash
      | some (.file _) => .error .notDirectory
      | some (.device _) => .error .notDirectory

/-- The directory that a path is walked from when it is met in `dir`. -/
def startOf (p : Path) (dir : Location) : Location := if p.isAbsolute then [] else dir

/-- Walks, following at most the given number of links. A slash behind the target of
a link counts if no steps come after the link. -/
def walk (fs : FileSystem) (purpose : Purpose) :
    Nat → Location → List Step → Bool → Except Errno Spot
  | 0, dir, steps, slash =>
    fs.walkSteps purpose (fun _ _ _ _ => .error .tooManyLinks) slash dir steps
  | budget + 1, dir, steps, slash =>
    fs.walkSteps purpose
      (fun dir target rest slash =>
        fs.walk purpose budget (startOf target dir) (target.steps ++ rest)
          (slash || (rest.isEmpty && target.endsInSlash)))
      slash dir steps

/-- The longest path that the operating system takes. -/
def maxPath : Nat := 4095

/-- Walks a path. A NUL byte is refused before the operating system sees the path. -/
def locate (fs : FileSystem) (purpose : Purpose) (p : Path) : Except IoError Spot :=
  if p.bytes.contains 0 then .error .nulInPath
  -- an empty path is not the base directory
  else if p.bytes = [] then .error (.os .noEntry)
  else if maxPath < p.bytes.length then .error (.os .nameTooLong)
  else
    match fs.walk purpose maxLinks (startOf p fs.base) p.steps p.endsInSlash with
    | .ok spot => .ok spot
    | .error reason => .error (.os reason)

/-- Whether the directory that a walk has reached was removed. Only the base can be: paths are
still seen from it then, but nothing is found in it and nothing can be added. -/
def isGone (fs : FileSystem) (dir : Location) : Bool := fs.node? dir ≠ some .directory

/-- What stands at a spot. A slash behind a name asks for a directory. -/
def nodeAt (fs : FileSystem) (spot : Spot) : Except IoError (Location × Node) :=
  match spot.last with
  | .root => .ok (spot.dir, .directory)
  | .here => .ok (spot.dir, .directory)
  | .up => .ok (spot.dir.tail, .directory)
  | .name n =>
    if maxName < n.length then .error (.os .nameTooLong)
    else
      match fs.node? (n :: spot.dir) with
      | none => .error (.os .noEntry)
      | some node =>
        if spot.slash && node ≠ .directory then .error (.os .notDirectory)
        else .ok (n :: spot.dir, node)

/-- What a path means, links followed. -/
def resolve (fs : FileSystem) (p : Path) : Except IoError (Location × Node) :=
  fs.locate .follow p >>= fs.nodeAt

/-- The entry that a path names, a link in last place not followed. -/
def resolveEntry (fs : FileSystem) (p : Path) : Except IoError (Location × Node) :=
  fs.locate .stay p >>= fs.nodeAt

end FileSystem

end LineShell
