import DeclTags.Registry

set_option autoImplicit false

/-! # Finding files

The files below a root that some language can scan. Links are followed, hidden directories and those
of builds and dependencies are passed over, the root itself aside. A link that leads nowhere or back
to a directory around it ends the search. -/

namespace DeclTags

/-- Directories that are never searched. -/
def skippedDirectories : List String := ["target", "vendor", "node_modules", "build"]

/-- Whether a directory below the root is passed over, by its name. -/
def isSkipped (name : String) : Bool :=
  name.toList.head? = some '.' || skippedDirectories.contains name

/-- Why a search ends without an answer. -/
inductive SearchFault where
  | unusable (path : String) (fault : DiskFault)
  /-- The path `child` leads back to the directory `ancestor`. -/
  | loop (child ancestor : String)
  deriving DecidableEq, Repr

def SearchFault.message : SearchFault → String
  | .unusable path fault =>
    "IO error for operation on " ++ path ++ ": " ++ fault.message ++ ": " ++ fault.message
  | .loop child ancestor =>
    "File system loop found: " ++ child ++ " points to an ancestor " ++ ancestor

/-- A directory that is searched: where it stands, and the path that led to it. -/
structure SearchedDirectory where
  location : Location
  path : String
  deriving DecidableEq, Repr

namespace Disk

/-- Whether a link stands at a location. -/
def hasLink (d : Disk) (location : Location) : Bool :=
  match d.entry? location with
  | some (.link _) => true
  | _ => false

/-- The number of directories in an entry, itself included. -/
def directoryCount : DiskEntry → Nat
  | .directory entries => 1 + countAll entries
  | _ => 0
where
  /-- The number of directories in the entries of a directory. -/
  countAll : List (String × DiskEntry) → Nat
    | [] => 0
    | (_, entry) :: entries => directoryCount entry + countAll entries

end Disk

/-- The files that an entry of a directory brings to a search: the entry itself, or those below it.
`around` are the directories around the one that is searched, innermost first, and `search` looks
into one more. -/
def filesAt (d : Disk) (cwd : Location)
    (search : List SearchedDirectory → SearchedDirectory → Except SearchFault (List String))
    (around : List SearchedDirectory) (here : SearchedDirectory) (name : String) :
    Except SearchFault (List String) :=
  let path := Path.join here.path name
  match d.resolve cwd path with
  | .error fault => .error (.unusable path fault)
  | .ok location =>
    if !d.hasDirectory location then .ok [path]
    else
      let isLink := d.hasLink (here.location ++ [name])
      match if isLink then (here :: around).find? (·.location = location) else none with
      | some ancestor => .error (.loop path ancestor.path)
      | none =>
        if isSkipped name then .ok []
        else search (here :: around) ⟨location, path⟩

/-- The files below a directory, by their paths. `around` are the directories around it, innermost
first. Since none of them is entered twice, their number bounds the depth; `depth` is what is left
of it. -/
def filesBelow (d : Disk) (cwd : Location) : Nat → List SearchedDirectory → SearchedDirectory →
    Except SearchFault (List String)
  | 0, _, _ => .ok []
  | depth + 1, around, here => do
    let found ← (d.children here.location).mapM (filesAt d cwd (filesBelow d cwd depth) around here)
    return found.flatten

/-- All files that a search from a root meets: those below it, or the root itself. -/
def searchedFiles (d : Disk) (cwd : Location) (root : String) :
    Except SearchFault (List String) :=
  match d.resolve cwd root with
  | .error fault => .error (.unusable root fault)
  | .ok location =>
    if d.hasDirectory location then
      filesBelow d cwd (Disk.directoryCount (.directory d.root)) [] ⟨location, root⟩
    else .ok [root]

/-- The paths of the files below a root whose extension some language claims, in order. -/
def discover (r : Registry) (d : Disk) (cwd : Location) (root : String) :
    Except SearchFault (List String) := do
  let paths ← searchedFiles d cwd root
  return (paths.filter fun path =>
    (r.forExtension? ((Path.extension? path).getD "")).isSome).mergeSort Path.le

end DeclTags
