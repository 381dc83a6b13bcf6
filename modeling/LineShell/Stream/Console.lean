/-
The output streams of a session.

A console keeps what it has been given.  It may have room for a limited number of bytes
in all; the write that goes beyond it leaves the bytes that fit and fails, and so does
every later write that is not empty.
-/
import LineShell.Files.Error
import LineShell.Text.Utf8

set_option autoImplicit false

namespace LineShell

/-- An output stream of the session. -/
structure Console where
  /-- What has been written. -/
  written : Array UInt8
  /-- How many more bytes are accepted, if there is a limit. -/
  room : Option Nat
  deriving DecidableEq, Repr

namespace Console

/-- A console that has not been written to. -/
def blank (room : Option Nat) : Console := ⟨#[], room⟩

/-- What has been written. -/
def bytes (c : Console) : Bytes := c.written.toList

/-- Writes bytes as far as they fit. -/
def write (c : Console) (data : Bytes) : Except IoError Unit × Console :=
  match c.room with
  | none => (.ok (), { c with written := c.written ++ data })
  | some room =>
    if data.length ≤ room then (.ok (), ⟨c.written ++ data, some (room - data.length)⟩)
    else (.error .sinkClosed, ⟨c.written ++ data.take room, some 0⟩)

/-- Takes out what has been written. -/
def take (c : Console) : Bytes × Console := (c.bytes, { c with written := #[] })

end Console

end LineShell
