import DeclTags.Path
import DeclTags.Text.Bytes

set_option autoImplicit false

/-! # Disks

A disk is a tree of files, directories and symbolic links. An entry stands at a location: the names
that lead to it from the root. A path is resolved to a location name by name, links being followed
on the way. -/

namespace DeclTags

inductive DiskEntry where
  | file (bytes : List UInt8)
  | link (target : String)
  | directory (entries : List (String × DiskEntry))
  deriving Repr, Inhabited

def DiskEntry.isDirectory : DiskEntry → Bool
  | .directory _ => true
  | _ => false

/-- The names from the root to an entry. -/
abbrev Location := List String

/-- Why a path cannot be used. -/
inductive DiskFault where
  | notFound
  | notDirectory
  | isDirectory
  | tooManyLinks
  /-- The bytes of the file spell no text. -/
  | notText
  deriving DecidableEq, Repr

def DiskFault.message : DiskFault → String
  | .notFound => "No such file or directory (os error 2)"
  | .notDirectory => "Not a directory (os error 20)"
  | .isDirectory => "Is a directory (os error 21)"
  | .tooManyLinks => "Too many levels of symbolic links (os error 40)"
  | .notText => "stream did not contain valid UTF-8"

/-- The entries of the root directory. -/
structure Disk where
  root : List (String × DiskEntry) := []
  deriving Repr, Inhabited

namespace Disk

/-- The absolute path of a location. -/
def pathOf (location : Location) : String := "/" ++ String.intercalate "/" location

/-- The entry at a location inside of an entry. -/
def entryIn : DiskEntry → Location → Option DiskEntry
  | entry, [] => some entry
  | .directory entries, name :: names =>
    match entries.lookup name with
    | some entry => entryIn entry names
    | none => none
  | _, _ :: _ => none

def entry? (d : Disk) (location : Location) : Option DiskEntry :=
  entryIn (.directory d.root) location

/-- Whether a directory stands at a location. -/
def hasDirectory (d : Disk) (location : Location) : Bool :=
  (d.entry? location).any DiskEntry.isDirectory

/-- The entries of a directory with one more, in place of an earlier one of its name. -/
def setEntry (name : String) (entry : DiskEntry) :
    List (String × DiskEntry) → List (String × DiskEntry)
  | [] => [(name, entry)]
  | e :: entries =>
    if e.1 = name then (name, entry) :: entries else e :: setEntry name entry entries

/-- The entries of a directory with one more at a location in it. What is missing on the way
becomes a directory. -/
def putIn (entry : DiskEntry) : Location → List (String × DiskEntry) → List (String × DiskEntry)
  | [], entries => entries
  | [name], entries => setEntry name entry entries
  | name :: names, entries =>
    match entries.lookup name with
    | some (.directory inner) => setEntry name (.directory (putIn entry names inner)) entries
    | _ => setEntry name (.directory (putIn entry names [])) entries

/-- The disk with an entry at a location, whatever was there before. -/
def put (d : Disk) (location : Location) (entry : DiskEntry) : Disk :=
  ⟨putIn entry location d.root⟩

/-- The names in the directory at a location, in order. -/
def children (d : Disk) (location : Location) : List String :=
  match d.entry? location with
  | some (.directory entries) => (entries.map (·.1)).mergeSort Text.le
  | _ => []

/-! ## Resolving paths -/

/-- The greatest number of links that are followed on the way to an entry. -/
def linkLimit : Nat := 40

/-- The location that some names lead to from `here`, at most `links` links being followed. With
`creating` the last name may be missing in its directory. -/
def resolveFrom (d : Disk) (creating : Bool) (links : Nat) (here : Location) :
    List String → Except DiskFault Location
  | [] => .ok here
  | name :: names =>
    if !d.hasDirectory here then .error .notDirectory
    else if name = "." then resolveFrom d creating links here names
    else if name = ".." then resolveFrom d creating links here.dropLast names
    else
      match d.entry? (here ++ [name]) with
      | none => if creating && names.isEmpty then .ok (here ++ [name]) else .error .notFound
      | some (.link target) =>
        match links with
        | 0 => .error .tooManyLinks
        | links + 1 =>
          resolveFrom d creating links (if Path.isAbsolute target then [] else here)
            (Path.names target ++ (if Path.endsWithSlash target then ["."] else []) ++ names)
      | some _ => resolveFrom d creating links (here ++ [name]) names
termination_by names => (links, names.length)

/-- The location that a path leads to from the directory `cwd`. -/
def resolve (d : Disk) (cwd : Location) (path : String) : Except DiskFault Location :=
  if path.isEmpty then .error .notFound
  else
    d.resolveFrom false linkLimit (if Path.isAbsolute path then [] else cwd)
      (Path.names path ++ if Path.endsWithSlash path then ["."] else [])

/-- Whether the path leads to a directory. -/
def isDirectory (d : Disk) (cwd : Location) (path : String) : Bool :=
  match d.resolve cwd path with
  | .ok location => d.hasDirectory location
  | .error _ => false

/-! ## Reading and writing -/

def readBytes (d : Disk) (cwd : Location) (path : String) : Except DiskFault (List UInt8) := do
  let location ← d.resolve cwd path
  match d.entry? location with
  | some (.file bytes) => return bytes
  | some (.directory _) => throw .isDirectory
  | _ => throw .notFound

theorem readBytes_of_entry? {d : Disk} {cwd location : Location} {path : String}
    {bytes : List UInt8} (hpath : d.resolve cwd path = .ok location)
    (hentry : d.entry? location = some (.file bytes)) : d.readBytes cwd path = .ok bytes := by
  simp only [readBytes, hpath, bind, Except.bind, hentry]
  rfl

def readText (d : Disk) (cwd : Location) (path : String) : Except DiskFault (List Char) := do
  match Text.decode (← d.readBytes cwd path) with
  | .ok text => return text
  | .error _ => throw .notText

/-- The names in the directory that a path leads to, in order. -/
def list (d : Disk) (cwd : Location) (path : String) : Except DiskFault (List String) := do
  let location ← d.resolve cwd path
  if d.hasDirectory location then return d.children location
  throw .notDirectory

/-- The location of the file that would be written at a path. -/
def writeLocation (d : Disk) (cwd : Location) (path : String) : Except DiskFault Location := do
  if path.isEmpty then throw .notFound
  let location ← d.resolveFrom true linkLimit (if Path.isAbsolute path then [] else cwd)
    (Path.names path)
  if Path.endsWithSlash path || d.hasDirectory location then throw .isDirectory
  return location

/-- The disk with a file written at a path. -/
def write (d : Disk) (cwd : Location) (path : String) (bytes : List UInt8) :
    Except DiskFault Disk := do
  return d.put (← d.writeLocation cwd path) (.file bytes)

end Disk

end DeclTags
