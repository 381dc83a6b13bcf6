/-
The file system as a value.

A directory tree is kept flat: every entry stands under its *location*, the list of
names that leads to it, leaf first.  The parent of a location is then its tail, a
directory lies above another location when it is a suffix of it, and moving a
directory rewrites the suffix of whatever lies below.  The root is the empty
location; it is always a directory and never an entry.

What a regular file holds is not in its entry.  The entry names a number, and the
contents stand in a table under that number.  An opened file is known by its number
alone, so writing to it goes on after its entry was renamed or removed, and a number
is never given out twice because contents are only ever added to the table.

Some directories begin another volume.  A volume reaches down to the next one
below it, and no entry can be renamed from one volume to another.
-/
import LineShell.Files.Error
import LineShell.Path.Basic

set_option autoImplicit false

namespace LineShell

/-- The name of an entry in its directory. -/
abbrev Name := Bytes

/-- The names that lead from the root to an entry, leaf first. -/
abbrev Location := List Name

/-- The number under which the contents of a regular file stand. -/
abbrev FileId := Nat

/-- A file that holds nothing of its own. -/
inductive Device where
  /-- Takes every byte and keeps none. -/
  | null
  /-- Takes no byte. -/
  | full
  /-- Takes bytes at some times and not at others: of each write the next portion at most, and
  nothing behind the last one. -/
  | fitful (portions : List Nat)
  deriving DecidableEq, Repr

/-- What stands at a location. -/
inductive Node where
  | directory
  | file (id : FileId)
  | link (target : Path)
  | device (d : Device)
  deriving DecidableEq, Repr

/-- What a regular file holds. -/
structure FileData where
  content : Bytes
  /-- Whether the time of the last change is another one than at the start. -/
  touched : Bool
  deriving DecidableEq, Repr

/-- A file system. -/
structure FileSystem where
  /-- The entries by location. -/
  entries : List (Location × Node)
  /-- The contents of regular files by number. -/
  files : List FileData
  /-- The directories that begin a volume of their own. -/
  volumes : List Location
  /-- The directory that a relative path is seen from. -/
  base : Location
  deriving DecidableEq, Repr

namespace FileSystem

/-! ## Entries -/

/-- What stands at a location. -/
def node? (fs : FileSystem) (l : Location) : Option Node :=
  if l = [] then some .directory else fs.entries.lookup l

/-- Adds an entry where there is none. -/
def insert (fs : FileSystem) (l : Location) (n : Node) : FileSystem :=
  { fs with entries := (l, n) :: fs.entries }

/-- Drops the entry at a location. -/
def erase (fs : FileSystem) (l : Location) : FileSystem :=
  { fs with entries := fs.entries.filter (fun e => e.1 ≠ l) }

/-- The name that an entry has in a directory. -/
def nameIn? (dir l : Location) : Option Name :=
  match l with
  | name :: parent => if parent = dir then some name else none
  | [] => none

/-- The names in a directory, in no particular order. -/
def names (fs : FileSystem) (dir : Location) : List Name :=
  fs.entries.filterMap (fun e => nameIn? dir e.1)

/-- Where a location lies after the entry `source` has become the entry `target`. -/
def relocate (source target l : Location) : Location :=
  if source <:+ l then l.take (l.length - source.length) ++ target else l

/-- Moves an entry and everything below it. What stood at `target` is dropped. -/
def move (fs : FileSystem) (source target : Location) : FileSystem :=
  { fs with
    entries := (fs.erase target).entries.map (fun e => (relocate source target e.1, e.2))
    -- the base is a directory, not a path, so it goes along
    base := relocate source target fs.base }

/-! ## Volumes -/

/-- The directory at which the volume of a location begins: the deepest one of the
given directories above it. -/
def volumeOf (fs : FileSystem) (l : Location) : Location :=
  (fs.volumes.filter (· <:+ l)).foldl
    (fun best v => if best.length < v.length then v else best) []

/-! ## Contents -/

/-- The contents under a number. -/
def data (fs : FileSystem) (id : FileId) : FileData := fs.files.getD id ⟨[], false⟩

/-- Replaces the contents under a number, which counts as a change of the file. -/
def setContent (fs : FileSystem) (id : FileId) (content : Bytes) : FileSystem :=
  { fs with files := fs.files.set id ⟨content, true⟩ }

/-- Adds an empty regular file where there is no entry; gives its number. -/
def addFile (fs : FileSystem) (l : Location) : FileId × FileSystem :=
  (fs.files.length, { fs.insert l (.file fs.files.length) with
    files := fs.files ++ [⟨[], true⟩] })

end FileSystem

end LineShell
