/-
The input of a session.

Input arrives in chunks whose borders mean nothing, and after the last chunk it either
ends or breaks off.  A reader that wants a line goes on from chunk to chunk until it
has met a newline.  If the input ends before that, the piece it has got is the last
line; if it breaks off, the piece is lost, because the failure is all that is reported.
-/
import LineShell.Files.Error
import LineShell.Stream.Memory

set_option autoImplicit false

namespace LineShell

/-- What happens to a reader behind the last chunk. -/
inductive SourceEnd where
  /-- The input is over. -/
  | finished
  /-- Every further read fails. -/
  | lost
  deriving DecidableEq, Repr

/-- Input that has not been read. -/
structure Source where
  chunks : List Bytes
  ending : SourceEnd
  deriving DecidableEq, Repr

namespace Source

/-- Input that arrives in one piece and then ends. -/
def ofBytes (bs : Bytes) : Source := ⟨[bs], .finished⟩

/-- The bytes that have not been read. -/
def bytes (s : Source) : Bytes := s.chunks.flatten

/-- The bytes up to and including the first `b`, whether there was one, and the chunks
behind it. -/
def gather (b : UInt8) : List Bytes → Bytes × Bool × List Bytes
  | [] => ([], false, [])
  | chunk :: rest =>
    if chunk.contains b then
      let (piece, left) := cutAfter b chunk
      -- an empty remainder is dropped, since a chunk stands for bytes that did arrive
      (piece, true, if left = [] then rest else left :: rest)
    else
      let (piece, found, left) := gather b rest
      (chunk ++ piece, found, left)

/-- Reads up to and including the next `b`, or to the end of the input. -/
def readUntil (s : Source) (b : UInt8) : Except IoError Bytes × Source :=
  let (piece, found, left) := gather b s.chunks
  let rest : Source := { s with chunks := left }
  if found || s.ending = .finished then (.ok piece, rest) else (.error .inputLost, rest)

end Source

end LineShell
