import DeclTags.Command

set_option autoImplicit false

/-! # The program

The one module that meets the outside world. It draws what a command can see of the files as a
disk, runs the command on it, and carries out what the command has written. -/

namespace DeclTags

/-- A disk that is being drawn. -/
structure Drawing where
  disk : Disk := {}
  /-- The directories whose entries are on the disk. -/
  listed : List Location := []

abbrev Draw := StateT Drawing IO

namespace Draw

/-- Puts an entry on the disk, unless there is one. -/
def put (location : Location) (entry : DiskEntry) : Draw Unit :=
  modify fun s =>
    if (s.disk.entry? location).isSome then s else { s with disk := s.disk.put location entry }

mutual

/-- Draws what some names lead to from a directory, and the way there; with `below` all that a
search from there can meet. Files are drawn empty. A link that leads nowhere gets a target that no
file can have. -/
partial def walk (below : Bool) (here : Location) : List String → Draw Unit
  | [] => if below then list here else pure ()
  | "." :: names => walk below here names
  | ".." :: names => walk below here.dropLast names
  | name :: names => do
    let location := here ++ [name]
    let entry : IO.FS.DirEntry := { root := Disk.pathOf here, fileName := name }
    match ← entry.path.symlinkMetadata.toBaseIO with
    | .error _ => pure ()
    | .ok found =>
      match found.type with
      | .dir => do
        put location (.directory [])
        walk below location names
      | .symlink => do
        match ← (IO.FS.realPath entry.path).toBaseIO with
        | .ok target =>
          put location (.link target.toString)
          walk below [] (Path.names target.toString ++ names)
        | .error _ => put location (.link "\x00")
      | _ => put location (.file [])

/-- Draws the entries of a directory, and what is below them if a search enters them. -/
partial def list (here : Location) : Draw Unit := do
  if (← get).listed.contains here then return
  modify fun s => { s with listed := here :: s.listed }
  let entry : IO.FS.DirEntry := { root := Disk.pathOf here, fileName := "." }
  match ← entry.path.readDir.toBaseIO with
  | .error _ => pure ()
  | .ok children =>
    for child in children do
      walk (!isSkipped child.fileName) here [child.fileName]

end

/-- Draws what a path leads to. -/
def path (below : Bool) (cwd : Location) (p : String) : Draw Unit :=
  walk below [] ((if Path.isAbsolute p then [] else cwd) ++ Path.names p)

/-- Draws the content of a file; one that cannot be read gets bytes that are no text. -/
def content (cwd : Location) (p : String) : Draw Unit := do
  match (← get).disk.resolve cwd p with
  | .error _ => pure ()
  | .ok location =>
    if (← get).disk.hasDirectory location then return
    let bytes ←
      match ← (IO.FS.readBinFile (Disk.pathOf location)).toBaseIO with
      | .ok bytes => pure bytes.toList
      | .error _ => pure [0xFF]
    modify fun s => { s with disk := s.disk.put location (.file bytes) }

/-- Draws the user's profiles. -/
def userProfiles (cwd : Location) (directory : String) : Draw Unit := do
  path true cwd directory
  match (← get).disk.list cwd directory with
  | .error _ => pure ()
  | .ok names =>
    for name in names do
      let file := Path.join directory name
      if Registry.isProfilePath file then content cwd file

/-- Draws what a command can see. -/
def command (e : Environment) : Command → Draw Unit
  | .profiles _ => (e.userDirectory.forM (userProfiles e.cwd))
  | .scan request => do
    e.userDirectory.forM (userProfiles e.cwd)
    for p in request.profile do
      path false e.cwd p
      content e.cwd p
    for p in request.output do
      path false e.cwd p
    path true e.cwd request.path
    let e := { e with disk := (← get).disk }
    match request.languages e >>= fun (registry, _) => request.files e registry with
    | .error _ => pure ()
    | .ok (_, files) => for p in files do content e.cwd p

end Draw

/-- The path of the directory with the user's profiles, if there is a place for it. -/
def userProfileDirectory : IO (Option String) := do
  let chosen := (← IO.getEnv "XDG_CONFIG_HOME").filter Path.isAbsolute
  let usual := (← IO.getEnv "HOME").map (Path.join · ".config")
  return (chosen <|> usual).map (Path.join · "bracetag/profiles")

/-- The file that a command has written, if there is one. -/
def writtenFile? (e : Environment) (after : Disk) : Command → Option (String × List UInt8)
  | .scan { output := some path, .. } => do
    let bytes ← (after.readBytes e.cwd path).toOption
    if (e.disk.readBytes e.cwd path).toOption = some bytes then none else some (path, bytes)
  | _ => none

/-- Runs a command on the files that there are. -/
def Command.perform (e : Environment) (command : Command) : IO Outcome := do
  let (_, drawing) ← (Draw.command e command).run {}
  let e := { e with disk := drawing.disk }
  let outcome := command.run e
  match writtenFile? e outcome.disk command with
  | none => return outcome
  | some (path, bytes) =>
    match ← (IO.FS.writeBinFile path ⟨bytes.toArray⟩).toBaseIO with
    | .ok _ => return outcome
    | .error error => return Outcome.failed e ("Error: " ++ toString error)

def runProgram (arguments : List String) : IO UInt32 := do
  let e : Environment :=
    { disk := {}, cwd := Path.parts (← IO.currentDir).toString,
      userDirectory := ← userProfileDirectory }
  let outcome ←
    match Command.ofArguments arguments with
    | .error stop => pure (stop.outcome e)
    | .ok command => command.perform e
  IO.print outcome.stdout
  IO.eprint outcome.stderr
  return UInt32.ofNat outcome.status.code

end DeclTags

def main (arguments : List String) : IO UInt32 := DeclTags.runProgram arguments
