import DeclTags.Command.Option

set_option autoImplicit false

/-! # The commands and their arguments

`scan PATH`, also called `tag`, scans a file or a directory; `profiles` lists the language profiles
or shows one; `help` asks for the help text. -/

namespace DeclTags

/-- What a scan is asked for. -/
structure ScanRequest where
  /-- The file or directory to scan. -/
  path : String
  /-- The name of the report format. -/
  format : String := "pretty"
  /-- The path of one more profile. -/
  profile : Option String := none
  /-- The language of all files. -/
  language : Option String := none
  /-- Whether types are reported. -/
  types : Bool := false
  /-- Patterns of the paths to leave out. -/
  excludes : List String := []
  /-- The path of the file that the report is written to. -/
  output : Option String := none
  /-- The names of the kinds of diagnostics to leave out. -/
  ignored : List String := []
  /-- Whether a warning is a failure. -/
  strict : Bool := false
  deriving DecidableEq, Repr

inductive Command where
  | scan (request : ScanRequest)
  /-- Shows the profile of a language, or lists all of them. -/
  | profiles (shown : Option String)
  deriving DecidableEq, Repr

namespace Usage

/-- The options that are understood everywhere. -/
def shared : List CommandOption := [⟨"verbose", some 'v', .flag⟩, ⟨"help", some 'h', .help⟩]

def commandNames : List String := ["scan", "tag", "profiles", "help"]

/-- What can be given before a command. -/
def program : Usage where
  options := ⟨"version", some 'V', .version⟩ :: shared
  commands := commandNames

def scan : Usage where
  options :=
    [⟨"format", some 'f', .text⟩, ⟨"profile", some 'p', .path⟩, ⟨"language", some 'l', .text⟩,
      ⟨"types", none, .flag⟩, ⟨"exclude", some 'e', .texts⟩, ⟨"output", some 'o', .path⟩,
      ⟨"ignore", none, .texts⟩, ⟨"strict", none, .flag⟩, ⟨"progress", none, .flag⟩] ++ shared
  argument := some ⟨"path", none, .path⟩

def profiles : Usage where
  options := ⟨"show", some 's', .text⟩ :: shared

end Usage

namespace ScanRequest

def ofArguments (arguments : List String) : Except UsageStop ScanRequest := do
  let (r, _) ← Usage.scan.read arguments
  match r.value? "path" with
  | none => throw (.missingArgument "path")
  | some path =>
    return {
      path
      format := (r.value? "format").getD "pretty"
      profile := r.value? "profile"
      language := r.value? "language"
      types := r.isGiven "types"
      excludes := r.values "exclude"
      output := r.value? "output"
      ignored := r.values "ignore"
      strict := r.isGiven "strict" }

end ScanRequest

namespace Command

/-- What `help` with some names gives: the help text, of a command if one is named. Commands have no
commands of their own. -/
def helpStop : List String → UsageStop
  | [] => .help
  | name :: names =>
    if Usage.commandNames.contains name then
      match names with
      | [] => .help
      | inner :: _ => .unknownCommand inner
    else .unknownCommand name

/-- The command that the arguments of the program ask for. -/
def ofArguments (arguments : List String) : Except UsageStop Command := do
  match ← Usage.program.read arguments with
  | (r, []) => throw (if r.given.isEmpty then .nothingGiven else .missingCommand)
  | (_, "help" :: names) => throw (helpStop names)
  | (_, "profiles" :: rest) =>
    let (r, _) ← Usage.profiles.read rest
    return .profiles (r.value? "show")
  | (_, _ :: rest) => return .scan (← ScanRequest.ofArguments rest)

end Command

end DeclTags
