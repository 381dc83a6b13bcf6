/-
Opened files.

A handle is what is left of a path once a file is open: the number of a regular
file, or a device.  It does not go back to the path, so renaming or removing the
entry does not reach it.

A handle that appends writes behind whatever the file holds at that moment.  Several
of them on one file therefore never write over each other.  A handle that overwrites
remembers its own offset; if the file was emptied in the meantime, the gap below
the offset is filled with zeros.
-/
import LineShell.Command.Line
import LineShell.Files.Walk

set_option autoImplicit false

namespace LineShell

/-- A file or device that was opened for writing. -/
inductive Handle where
  /-- A regular file, written to at its end. -/
  | atEnd (id : FileId)
  /-- A regular file, written to at an offset of the handle's own. -/
  | atOffset (id : FileId) (offset : Nat)
  | device (d : Device)
  deriving DecidableEq, Repr

namespace Handle

/-- The contents after bytes were written at an offset. -/
def overlay (content : Bytes) (offset : Nat) (written : Bytes) : Bytes :=
  content.take offset ++ List.replicate (offset - content.length) 0 ++ written
    ++ content.drop (offset + written.length)

/-- How many bytes of a write of the given length are taken. -/
def accepts (h : Handle) (length : Nat) : Nat :=
  match h with
  | .device .full => 0
  | .device (.fitful portions) => min length (portions.headD 0)
  | _ => length

/-- Writes bytes to the opened file; fails if not all of them are taken. Writing nothing always
succeeds and changes nothing, not even the time of the last change. -/
def write (h : Handle) (bytes : Bytes) (fs : FileSystem) :
    Except IoError Unit × Handle × FileSystem :=
  if bytes = [] then (.ok (), h, fs)
  else
    match h with
    | .atEnd id => (.ok (), h, fs.setContent id ((fs.data id).content ++ bytes))
    | .atOffset id offset =>
      (.ok (), .atOffset id (offset + bytes.length),
        fs.setContent id (overlay (fs.data id).content offset bytes))
    | .device .null => (.ok (), h, fs)
    | .device .full => (.error (.os .noSpace), h, fs)
    | .device (.fitful portions) =>
      (if bytes.length ≤ portions.headD 0 then .ok () else .error (.os .noSpace),
        .device (.fitful portions.tail), fs)

end Handle

namespace FileSystem

/-! ## Opening -/

/-- What opening a path for writing reached. -/
inductive Opened where
  | file (id : FileId)
  | device (d : Device)
  deriving DecidableEq, Repr

/-- Opens a path for writing and creates the file if there is none. A dangling link
creates what it points to. A path that can only mean a directory is refused, one that
ends in a slash before its last name is even looked up. -/
def openForWriting (fs : FileSystem) (p : Path) : Except IoError (Opened × FileSystem) := do
  let spot ← fs.locate .create p
  match spot.last with
  | .name n =>
    -- asked before anything is looked up, so a missing name makes no difference
    if spot.slash then .error (.os .isDirectory)
    else if fs.isGone spot.dir then .error (.os .noEntry)
    else if maxName < n.length then .error (.os .nameTooLong)
    else
      match fs.node? (n :: spot.dir) with
      | none =>
        let (id, fs) := fs.addFile (n :: spot.dir)
        .ok (.file id, fs)
      | some (.file id) => .ok (.file id, fs)
      | some (.device d) => .ok (.device d, fs)
      | some .directory => .error (.os .isDirectory)
      -- not reached: without a slash behind it, a link in last place was followed
      | some (.link _) => .error (.os .tooManyLinks)
  | _ => .error (.os .isDirectory)

/-- Opens the target of a redirection. An overwritten file is emptied at once. -/
def openTarget (fs : FileSystem) (p : Path) (mode : Redirection) :
    Except IoError (Handle × FileSystem) := do
  let (opened, fs) ← fs.openForWriting p
  match opened, mode with
  | .file id, .overwrite => .ok (.atOffset id 0, fs.setContent id [])
  | .file id, .append => .ok (.atEnd id, fs)
  | .device d, _ => .ok (.device d, fs)

end FileSystem

end LineShell
