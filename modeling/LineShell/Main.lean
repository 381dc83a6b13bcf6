/-
The command line of the shell.

The shell runs on a file system of its own, which is empty but for a directory to start in, and
reads its lines from the standard input.  Everything it decides is decided by
`Program.run`; here the surroundings are collected and the two outputs are written.
-/
import LineShell.Program

set_option autoImplicit false

namespace LineShell

/-- Reads a stream to its end. -/
partial def readAll (stream : IO.FS.Stream) (got : ByteArray) : IO ByteArray := do
  let more ← stream.read 65536
  if more.isEmpty then return got else readAll stream (got ++ more)

/-- What the program is started in: a fresh file system with one directory in it. -/
def surroundings (terminal : Option String) (input : ByteArray) : Program.Surroundings where
  files := .fresh (Text.encode "work") []
  directory := Path.ofString "/work"
  home := some (Path.ofString "/work")
  terminal := terminal.getD ""
  input := input.toList

end LineShell

open LineShell

/-- Runs the shell. -/
def main (words : List String) : IO UInt32 := do
  let input ← readAll (← IO.getStdin) ByteArray.empty
  let exit := Program.run words (surroundings (← IO.getEnv "TERM") input)
  (← IO.getStdout).write (ByteArray.mk exit.world.console.written)
  (← IO.getStderr).write (ByteArray.mk exit.world.errors.written)
  return exit.code.toUInt32
