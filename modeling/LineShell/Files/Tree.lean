/-
Building a file system and looking at one from outside.

A tree is what a person sees of a file system: full paths, and at each of them a directory, the
bytes of a file, or the target of a link.  The numbers under which contents are kept do not
show, so two file systems with the same tree may differ inside.  Trees are listed in the
order of the bytes of their paths.

A file system is built from a list of seeds, in order.  Directories above a seed are made as
needed, and a seed is planted through whatever links are there already.
-/
import LineShell.Files.Calls
import LineShell.Path.Normal

set_option autoImplicit false

namespace LineShell

open LineShell.Text

/-! ## Looking -/

/-- What a tree shows at a path. -/
inductive TreeEntry where
  | directory
  | file (content : Bytes) (touched : Bool)
  | link (target : Path)
  deriving DecidableEq, Repr

/-- The path that leads to a location. -/
def Location.path (l : Location) : Path := ⟨Path.slash :: Text.join Path.slash l.reverse⟩

namespace FileSystem

/-- What is seen of a node. A device is not part of a tree. -/
def seen (fs : FileSystem) : Node → Option TreeEntry
  | .directory => some .directory
  | .file id => some (.file (fs.data id).content (fs.data id).touched)
  | .link target => some (.link target)
  | .device _ => none

/-- What is seen at a location. -/
def seenAt (fs : FileSystem) (l : Location) : Option TreeEntry :=
  (fs.node? l).bind fs.seen

/-- Whether a location lies below another one. -/
def isBelow (l top : Location) : Bool := top <:+ l && l ≠ top

/-- The tree below the given directories. -/
def tree (fs : FileSystem) (tops : List Location) : List (Path × TreeEntry) :=
  let below := fs.entries.filter (fun e => tops.any (isBelow e.1))
  let shown := below.filterMap (fun e => (fs.seen e.2).map (fun s => (e.1.path, s)))
  shown.mergeSort (fun a b => decide (a.1.bytes ≤ b.1.bytes))

/-! ## Building -/

/-- What is to be planted into a file system. -/
inductive Seed where
  | directory (p : Path)
  | file (p : Path) (content : Bytes)
  | link (p target : Path)
  deriving DecidableEq, Repr

/-- Makes the directories that the components `rest` lead to, going on from the
components `done`. -/
def makeDirectories (fs : FileSystem) (done : List Path.Component) :
    List Path.Component → FileSystem
  | [] => fs
  | c :: rest =>
    let here := done ++ [c]
    let p := Path.ofComponents here
    match fs.status p with
    -- links count, so that a directory may be made below the target of one
    | .ok _ => fs.makeDirectories here rest
    | .error _ => (fs.commit (fs.makeDirectory p)).2.makeDirectories here rest

/-- Makes the directories above a path. -/
def makeParents (fs : FileSystem) (p : Path) : FileSystem :=
  fs.makeDirectories [] p.components.dropLast

/-- Writes a file, in place of what it held. -/
def writeFile (fs : FileSystem) (p : Path) (content : Bytes) : FileSystem :=
  match fs.openTarget p .overwrite with
  | .ok (handle, fs) => (handle.write content fs).2.2
  | .error _ => fs

/-- Plants one seed. -/
def plant (fs : FileSystem) : Seed → FileSystem
  | .directory p => fs.makeDirectories [] p.components
  | .file p content => (fs.makeParents p).writeFile p content
  | .link p target =>
    let fs := fs.makeParents p
    (fs.commit (fs.makeLink p target)).2

/-- Regards every file as unchanged from now on. -/
def settle (fs : FileSystem) : FileSystem :=
  { fs with files := fs.files.map (fun f => { f with touched := false }) }

/-- A file system with the two devices, a base directory in the root, and further directories
in the root that begin volumes of their own, as the directory of the devices does. -/
def fresh (base : Name) (others : List Name) : FileSystem where
  entries :=
    ([base] :: others.map (fun n => [n])).map (fun l => (l, Node.directory))
      ++ [([encode "dev"], .directory),
          ([encode "null", encode "dev"], .device .null),
          ([encode "full", encode "dev"], .device .full)]
  files := []
  volumes := [encode "dev"] :: others.map (fun n => [n])
  base := [base]

/-- Plants seeds in order into a fresh file system. -/
def ofSeeds (fresh : FileSystem) (seeds : List Seed) : FileSystem :=
  (seeds.foldl plant fresh).settle

end FileSystem

end LineShell
