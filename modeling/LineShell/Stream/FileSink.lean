/-
Buffered output to a file.

The output of a redirected command reaches its file through a buffer of 8192 bytes.
Three routes lead from a write to the file, by the size of the write alone: one that
leaves room in the buffer is held; one that does not fit empties the buffer first;
and one as large as the whole buffer goes past it.  In every case the bytes of the
file followed by the bytes held are the bytes written so far, in order, which is the
point of the order of these steps.

A failure surfaces at the write that causes it.  What the buffer held and the file did not
take stays held then, and the bytes of the failing write are not held.
-/
import LineShell.Files.Handle

set_option autoImplicit false

namespace LineShell

/-- How many bytes the buffer of a sink holds. -/
def sinkCapacity : Nat := 8192

/-- An opened file with the bytes that are waiting to be written to it. -/
structure FileSink where
  handle : Handle
  held : Bytes
  deriving DecidableEq, Repr

namespace FileSink

/-- How many more bytes fit into the buffer. -/
def spare (s : FileSink) : Nat := sinkCapacity - s.held.length

/-- Keeps bytes in the buffer. -/
def hold (s : FileSink) (data : Bytes) : FileSink := { s with held := s.held ++ data }

/-- Writes what is held to the file. -/
def flush (s : FileSink) (fs : FileSystem) : Except IoError Unit × FileSink × FileSystem :=
  match s.handle.write s.held fs with
  | (.ok (), h, fs) => (.ok (), ⟨h, []⟩, fs)
  -- what was not taken is still waiting
  | (.error e, h, fs) => (.error e, ⟨h, s.held.drop (s.handle.accepts s.held.length)⟩, fs)

/-- Empties the buffer if the given number of bytes does not fit into it. -/
def makeRoom (s : FileSink) (n : Nat) (fs : FileSystem) :
    Except IoError Unit × FileSink × FileSystem :=
  if s.spare < n then s.flush fs else (.ok (), s, fs)

/-- Takes bytes that may be more than the buffer has room for. -/
def writeThrough (s : FileSink) (data : Bytes) (fs : FileSystem) :
    Except IoError Unit × FileSink × FileSystem :=
  match s.makeRoom data.length fs with
  | (.error e, s, fs) => (.error e, s, fs)
  | (.ok (), s, fs) =>
    if sinkCapacity ≤ data.length then
      match s.handle.write data fs with
      | (result, h, fs) => (result, { s with handle := h }, fs)
    else (.ok (), s.hold data, fs)

/-- Writes bytes to the sink. -/
def write (s : FileSink) (data : Bytes) (fs : FileSystem) :
    Except IoError Unit × FileSink × FileSystem :=
  -- strictly less: a write that would fill the buffer to the brim goes the long way
  if data.length < s.spare then (.ok (), s.hold data, fs) else s.writeThrough data fs

/-- Closes the sink: what is held is written, and a failure is ignored. -/
def close (s : FileSink) (fs : FileSystem) : FileSystem := (s.flush fs).2.2

end FileSink

namespace FileSystem

/-- Opens a path as the sink of a redirection. -/
def openSink (fs : FileSystem) (p : Path) (mode : Redirection) :
    Except IoError (FileSink × FileSystem) := do
  let (handle, fs) ← fs.openTarget p mode
  .ok (⟨handle, []⟩, fs)

end FileSystem

end LineShell
