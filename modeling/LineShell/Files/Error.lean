/-
Why an input or output operation fails.

The causes are few.  The operating system refuses a call and names the reason; a
path holds a NUL byte and is refused before any call; or a stream of the session
itself gives out.  A cause is kept as a value for as long as something may still be
decided by it, and it becomes text in one place.
-/

set_option autoImplicit false

namespace LineShell

/-- The reasons for which the operating system refuses a call. -/
inductive Errno where
  | noEntry
  | busy
  | alreadyExists
  | crossDevice
  | notDirectory
  | isDirectory
  | invalid
  | noSpace
  | nameTooLong
  | notEmpty
  | tooManyLinks
  deriving DecidableEq, Repr

/-- The text of a reason, with its number. -/
def Errno.message : Errno → String
  | .noEntry => "No such file or directory (os error 2)"
  | .busy => "Device or resource busy (os error 16)"
  | .alreadyExists => "File exists (os error 17)"
  | .crossDevice => "Invalid cross-device link (os error 18)"
  | .notDirectory => "Not a directory (os error 20)"
  | .isDirectory => "Is a directory (os error 21)"
  | .invalid => "Invalid argument (os error 22)"
  | .noSpace => "No space left on device (os error 28)"
  | .nameTooLong => "File name too long (os error 36)"
  | .notEmpty => "Directory not empty (os error 39)"
  | .tooManyLinks => "Too many levels of symbolic links (os error 40)"

/-- Why an operation on a file or a stream failed. -/
inductive IoError where
  /-- The operating system refused. -/
  | os (reason : Errno)
  /-- A path holds a NUL byte. -/
  | nulInPath
  /-- An output stream of the session takes no more bytes. -/
  | sinkClosed
  /-- The input stream of the session broke off. -/
  | inputLost
  /-- A line of input is not well-formed text. -/
  | notText
  deriving DecidableEq, Repr

/-- The text of a cause. -/
def IoError.message : IoError → String
  | .os reason => reason.message
  | .nulInPath => "file name contained an unexpected NUL byte"
  | .sinkClosed => "sink closed"
  | .inputLost => "input lost"
  | .notText => "stream did not contain valid UTF-8"

end LineShell
