/-
Streams in memory.

A pipe keeps everything its left side prints and then offers it to its right side.
Writing goes to a capture buffer, reading comes from a reader over what the buffer
held.  A reader needs no position: what it has delivered is gone from it, and
skipping further than the end leaves nothing, so the bytes that are left say all that
a later read can see.
-/
import LineShell.Text.Utf8

set_option autoImplicit false

namespace LineShell

/-! ## Cutting at a byte -/

/-- The bytes up to the first `b`, it included, and the bytes behind it. Without a `b`
the first part is everything. -/
def cutAfter (b : UInt8) (bs : Bytes) : Bytes × Bytes :=
  let behind := bs.dropWhile (· != b)
  (bs.takeWhile (· != b) ++ behind.take 1, behind.drop 1)

/-- Nothing is lost at the cut. -/
theorem cutAfter_append (b : UInt8) (bs : Bytes) :
    (cutAfter b bs).1 ++ (cutAfter b bs).2 = bs := by
  show bs.takeWhile (· != b) ++ (bs.dropWhile (· != b)).take 1
    ++ (bs.dropWhile (· != b)).drop 1 = bs
  rw [List.append_assoc, List.take_append_drop, List.takeWhile_append_dropWhile]

/-! ## Reading -/

/-- A reader over bytes in memory. -/
structure MemoryReader where
  /-- The bytes that have not been delivered. -/
  rest : Bytes
  deriving DecidableEq, Repr

namespace MemoryReader

/-- Delivers at most `n` bytes. -/
def read (r : MemoryReader) (n : Nat) : Bytes × MemoryReader :=
  (r.rest.take n, ⟨r.rest.drop n⟩)

/-- Skips `n` bytes, or all of them if there are fewer. -/
def consume (r : MemoryReader) (n : Nat) : MemoryReader := ⟨r.rest.drop n⟩

/-- Delivers the bytes up to and including the next `b`, or all of them. -/
def readUntil (r : MemoryReader) (b : UInt8) : Bytes × MemoryReader :=
  let (piece, rest) := cutAfter b r.rest
  (piece, ⟨rest⟩)

/-- Delivers everything that is left. -/
def readToEnd (r : MemoryReader) : Bytes × MemoryReader := (r.rest, ⟨[]⟩)

end MemoryReader

/-! ## Writing -/

/-- A buffer that keeps what is written to it. -/
structure CaptureBuffer where
  held : Array UInt8
  deriving DecidableEq, Repr

namespace CaptureBuffer

/-- A buffer that holds nothing. -/
def empty : CaptureBuffer := ⟨#[]⟩

/-- The bytes that a buffer holds. -/
def bytes (b : CaptureBuffer) : Bytes := b.held.toList

/-- Writing always succeeds and adds at the end. -/
def write (b : CaptureBuffer) (data : Bytes) : CaptureBuffer := ⟨b.held ++ data⟩

/-- Takes out what the buffer holds. -/
def take (b : CaptureBuffer) : Bytes × CaptureBuffer := (b.bytes, empty)

@[simp] theorem bytes_empty : empty.bytes = [] := rfl

@[simp] theorem bytes_write (b : CaptureBuffer) (data : Bytes) :
    (b.write data).bytes = b.bytes ++ data := by
  simp [bytes, write]

end CaptureBuffer

end LineShell
