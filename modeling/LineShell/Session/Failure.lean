/-
How a command can fail.

A failure is a cause; its wording is fixed in one place.  A cause that comes from below,
an error of the file system or of a stream, is kept inside the failure that it led to,
and its text comes last.
-/
import LineShell.Files.Error

set_option autoImplicit false

namespace LineShell

/-- Why a command failed. -/
inductive Failure where
  /-- A stream gave out. -/
  | io (e : IoError)
  /-- The verb was given no operand, or too few. -/
  | missingOperand (verb : String)
  /-- There is no such directory. -/
  | noDirectory (verb shown : String)
  /-- There is no such file. -/
  | noFile (verb operand : String)
  /-- The directory to list is not one. -/
  | notListable (shown : String)
  /-- The directory cannot be read. -/
  | unreadable (shown : String) (e : IoError)
  /-- The directory to make exists. -/
  | directoryExists (operand : String)
  /-- The directory cannot be made. -/
  | cannotCreate (operand : String) (e : IoError)
  /-- The directory to remove holds something. -/
  | notEmpty (operand : String)
  /-- The directory cannot be removed. -/
  | cannotRemoveDirectory (operand : String) (e : IoError)
  /-- The file cannot be created or opened. -/
  | cannotTouch (operand : String) (e : IoError)
  /-- The file to remove is a directory. -/
  | removeIsDirectory (operand : String)
  /-- The file cannot be removed. -/
  | cannotRemove (operand : String) (e : IoError)
  /-- The input cannot be echoed. -/
  | echoBroke (e : IoError)
  /-- The file cannot be printed. -/
  | cannotPrint (operand : String) (e : IoError)
  /-- The source cannot be moved. -/
  | cannotMove (source : String) (e : IoError)
  /-- The source has no name that it could keep. -/
  | namelessSource (source : String)
  /-- Several sources need a directory to go to. -/
  | targetNotDirectory (target : String)
  /-- A cause of a command's own, with the causes behind it. -/
  | chain (causes : List String)
  deriving DecidableEq, Repr

/-- What is printed about a failure. -/
def Failure.message : Failure → String
  | .io e => e.message
  | .missingOperand verb => verb ++ ": missing argument"
  | .noDirectory verb shown => verb ++ ": no such directory: " ++ shown
  | .noFile verb operand => verb ++ ": no such file: " ++ operand
  | .notListable shown => "ls: cannot access '" ++ shown ++ "': No such directory"
  | .unreadable shown e => "ls: cannot read '" ++ shown ++ "': " ++ e.message
  | .directoryExists operand => "mkdir: directory already exists: " ++ operand
  | .cannotCreate operand e =>
    "mkdir: cannot create directory '" ++ operand ++ "': " ++ e.message
  | .notEmpty operand => "rmdir: failed to remove '" ++ operand ++ "': Directory not empty"
  | .cannotRemoveDirectory operand e =>
    "rmdir: failed to remove '" ++ operand ++ "': " ++ e.message
  | .cannotTouch operand e => "touch: cannot touch '" ++ operand ++ "': " ++ e.message
  | .removeIsDirectory operand => "rm: cannot remove '" ++ operand ++ "': Is a directory"
  | .cannotRemove operand e => "rm: cannot remove '" ++ operand ++ "': " ++ e.message
  | .echoBroke e => "cat: " ++ e.message
  | .cannotPrint operand e => "cat: " ++ operand ++ ": " ++ e.message
  | .cannotMove source e => "mv: failed to move " ++ source ++ ": " ++ e.message
  | .namelessSource source => "mv: cannot move '" ++ source ++ "': invalid file name"
  | .targetNotDirectory target => "mv: target is not a directory: " ++ target
  | .chain causes => ": ".intercalate causes

end LineShell
