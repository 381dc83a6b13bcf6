/-
The calls that commands make on the file system.

Each call walks its paths first and looks at the entries afterwards, and each has its
own opinion on last steps that are not names: such a step can be listed and read
through, but nothing can be made, removed or renamed under it.  The order of the
tests is part of the rule, since it decides which of two faults is reported.

A call is a value (`FileCall`) and so is its answer (`FileCall.Reply`).  A command can
therefore be described by the calls it would make, without a file system at hand,
and `FileSystem.perform` is the only place where a command's calls meet one.
-/
import LineShell.Files.Handle

set_option autoImplicit false

namespace LineShell

/-- What kind of thing stands at a path. -/
inductive Kind where
  | directory
  | regular
  | link
  | device
  deriving DecidableEq, Repr

/-- The kind of a node. -/
def Node.kind : Node → Kind
  | .directory => .directory
  | .file _ => .regular
  | .link _ => .link
  | .device _ => .device

namespace FileSystem

/-! ## Questions -/

/-- The kind of what a path means, links followed. -/
def status (fs : FileSystem) (p : Path) : Except IoError Kind := do
  let (_, node) ← fs.resolve p
  .ok node.kind

/-- The kind of the entry that a path names. -/
def entryStatus (fs : FileSystem) (p : Path) : Except IoError Kind := do
  let (_, node) ← fs.resolveEntry p
  .ok node.kind

/-- The names in a directory. -/
def list (fs : FileSystem) (p : Path) : Except IoError (List Name) := do
  let (l, node) ← fs.resolve p
  match node with
  | .directory => .ok (fs.names l)
  | _ => .error (.os .notDirectory)

/-- The bytes that a path leads to, as far as these come to an end. A device counts as empty here;
reading `/dev/full`, which gives bytes for ever, never ends, so nothing is said of that. -/
def read (fs : FileSystem) (p : Path) : Except IoError Bytes := do
  let (_, node) ← fs.resolve p
  match node with
  | .file id => .ok (fs.data id).content
  | .directory => .error (.os .isDirectory)
  | _ => .ok []

/-! ## Adding and removing entries -/

/-- Adds an entry under a name that is still free. -/
def addEntry (fs : FileSystem) (p : Path) (node : Node) : Except IoError FileSystem := do
  let spot ← fs.locate .parent p
  match spot.last with
  | .name n =>
    if fs.isGone spot.dir then .error (.os .noEntry)
    else if maxName < n.length then .error (.os .nameTooLong)
    else
      match fs.node? (n :: spot.dir) with
      | some _ => .error (.os .alreadyExists)
      | none => .ok (fs.insert (n :: spot.dir) node)
  | _ => .error (.os .alreadyExists)

/-- Makes a directory. -/
def makeDirectory (fs : FileSystem) (p : Path) : Except IoError FileSystem :=
  fs.addEntry p .directory

/-- Makes a symbolic link. -/
def makeLink (fs : FileSystem) (p target : Path) : Except IoError FileSystem :=
  fs.addEntry p (.link target)

/-- Removes an empty directory. -/
def removeDirectory (fs : FileSystem) (p : Path) : Except IoError FileSystem := do
  let spot ← fs.locate .parent p
  match spot.last with
  | .root => .error (.os .busy)
  | .here => .error (.os .invalid)
  | .up => .error (.os .notEmpty)
  | .name n =>
    if maxName < n.length then .error (.os .nameTooLong)
    else
      let l := n :: spot.dir
      match fs.node? l with
      | none => .error (.os .noEntry)
      -- a slash behind the name makes no difference here: it asks for a directory too
      | some .directory =>
        if (fs.names l).isEmpty then .ok (fs.erase l) else .error (.os .notEmpty)
      | some _ => .error (.os .notDirectory)

/-- Removes an entry that is not a directory. A link in last place is removed itself. -/
def removeFile (fs : FileSystem) (p : Path) : Except IoError FileSystem := do
  let spot ← fs.locate .parent p
  match spot.last with
  | .name n =>
    if maxName < n.length then .error (.os .nameTooLong)
    else
      let l := n :: spot.dir
      match fs.node? l with
      | none => .error (.os .noEntry)
      | some .directory => .error (.os .isDirectory)
      | some _ =>
        -- a file that is called a directory by the slash behind its name
        if spot.slash then .error (.os .notDirectory) else .ok (fs.erase l)
  | _ => .error (.os .isDirectory)

/-- Creates an empty file, or changes only the time of an existing one. -/
def touch (fs : FileSystem) (p : Path) : Except IoError FileSystem := do
  let (opened, fs) ← fs.openForWriting p
  match opened with
  -- the contents stay, but setting them again changes the time
  | .file id => .ok (fs.setContent id (fs.data id).content)
  | .device _ => .ok fs

/-! ## Renaming and copying -/

/-- The volume on which the entry of a spot stands or would stand. -/
def spotVolume (fs : FileSystem) (spot : Spot) : Location :=
  match spot.last with
  | .name n => fs.volumeOf (n :: spot.dir)
  | _ => fs.volumeOf spot.dir

/-- Lets a node take the place of what stands at a location. Only a directory
replaces a directory, which has to be empty, and a directory replaces nothing else. -/
def mayReplace (fs : FileSystem) (node : Node) (target : Location) : Except Errno Unit :=
  match fs.node? target, node with
  | none, _ => .ok ()
  | some .directory, .directory =>
    if (fs.names target).isEmpty then .ok () else .error .notEmpty
  | some _, .directory => .error .notDirectory
  | some .directory, _ => .error .isDirectory
  | some _, _ => .ok ()

/-- Renames the entry at one spot to the entry at another. -/
def renameSpots (fs : FileSystem) (source target : Spot) : Except Errno FileSystem := do
  -- two volumes are noticed before the last steps are looked at, `..` and the root included
  if fs.spotVolume source ≠ fs.spotVolume target then .error .crossDevice
  else
    match source.last, target.last with
    | .name n, .name m =>
      if maxName < n.length then .error .nameTooLong
      else
        match fs.node? (n :: source.dir) with
        | none => .error .noEntry
        | some node =>
          if fs.isGone target.dir then .error .noEntry
          else if maxName < m.length then .error .nameTooLong
          else if node ≠ .directory ∧ (source.slash ∨ target.slash) then .error .notDirectory
          -- into something below itself
          else if (n :: source.dir) <:+ target.dir then .error .invalid
          -- onto something above itself, which therefore is not empty
          else if (m :: target.dir) <:+ source.dir then .error .notEmpty
          else if n :: source.dir = m :: target.dir then .ok fs
          else do
            fs.mayReplace node (m :: target.dir)
            .ok (fs.move (n :: source.dir) (m :: target.dir))
    | _, _ => .error .busy

/-- Renames an entry. Links in last place are renamed and replaced themselves. -/
def rename (fs : FileSystem) (source target : Path) : Except IoError FileSystem := do
  let a ← fs.locate .parent source
  let b ← fs.locate .parent target
  match fs.renameSpots a b with
  | .ok fs => .ok fs
  | .error reason => .error (.os reason)

/-- Copies the contents of a regular file. Links are followed on both sides, and the
target is emptied before the source is read; what was created or emptied stays so
when the bytes cannot be written. -/
def copy (fs : FileSystem) (source target : Path) : Except IoError Unit × FileSystem :=
  match fs.resolve source with
  | .ok (_, .file id) =>
    match fs.openTarget target .overwrite with
    | .error e => (.error e, fs)
    | .ok (handle, fs) =>
      -- read only now: if the target is the same file, there is nothing left to copy
      let (result, _, fs) := handle.write (fs.data id).content fs
      (result, fs)
  | .ok _ => (.error (.os .invalid), fs)
  | .error e => (.error e, fs)

end FileSystem

/-! ## Calls as values -/

/-- A call on the file system. -/
inductive FileCall where
  | status (p : Path)
  | entryStatus (p : Path)
  | list (p : Path)
  | read (p : Path)
  | makeDirectory (p : Path)
  | removeDirectory (p : Path)
  | removeFile (p : Path)
  | touch (p : Path)
  | rename (source target : Path)
  | copy (source target : Path)
  deriving DecidableEq, Repr

/-- What a call answers. -/
@[reducible] def FileCall.Reply : FileCall → Type
  | .status _ => Except IoError Kind
  | .entryStatus _ => Except IoError Kind
  | .list _ => Except IoError (List Name)
  | .read _ => Except IoError Bytes
  | .makeDirectory _ => Except IoError Unit
  | .removeDirectory _ => Except IoError Unit
  | .removeFile _ => Except IoError Unit
  | .touch _ => Except IoError Unit
  | .rename _ _ => Except IoError Unit
  | .copy _ _ => Except IoError Unit

namespace FileSystem

/-- A call that changes the file system only if it succeeds. -/
def commit (fs : FileSystem) (result : Except IoError FileSystem) :
    Except IoError Unit × FileSystem :=
  match result with
  | .ok changed => (.ok (), changed)
  | .error e => (.error e, fs)

/-- Answers a call. -/
def perform (fs : FileSystem) : (call : FileCall) → call.Reply × FileSystem
  | .status p => (fs.status p, fs)
  | .entryStatus p => (fs.entryStatus p, fs)
  | .list p => (fs.list p, fs)
  | .read p => (fs.read p, fs)
  | .makeDirectory p => fs.commit (fs.makeDirectory p)
  | .removeDirectory p => fs.commit (fs.removeDirectory p)
  | .removeFile p => fs.commit (fs.removeFile p)
  | .touch p => fs.commit (fs.touch p)
  | .rename source target => fs.commit (fs.rename source target)
  | .copy source target => fs.copy source target

end FileSystem

end LineShell
