import DeclTags.Discovery
import DeclTags.FileScan
import DeclTags.Glob.Set

set_option autoImplicit false

/-! # Scanning many files

Each file is scanned on its own, with the language that its extension names or that is given for
all of them. Files that are excluded, have no language or cannot be read as text are passed over. -/

namespace DeclTags

/-- How files are scanned. -/
structure Survey where
  /-- The directory that paths are shown relative to. -/
  base : String
  /-- Files are left out whose relative path these match. -/
  excludes : GlobSet := {}
  /-- The language of all files, instead of the one of their extension. -/
  language : Option String := none
  /-- Whether types are reported, whatever the language says. -/
  emitTypes : Bool := false
  deriving Repr

namespace Survey

/-- The survey that leaves out what the patterns match. -/
def exclude (s : Survey) (patterns : List String) : Except GlobSetFault Survey :=
  (GlobSet.parse patterns).map fun excludes => { s with excludes }

def isExcluded (s : Survey) (path : String) : Bool := s.excludes.isMatch path

/-- The language of a file, `forced` being the one of all files. -/
def languageOf? (r : Registry) (forced : Option Language) (path : String) : Option Language :=
  forced <|> (Path.extension? path).bind r.forExtension?

/-- The names of the languages that files may have. -/
def languageNames (r : Registry) (forced : Option Language) : List String :=
  match forced with
  | some l => [l.name]
  | none => r.names

/-- The grammars with types reported of the languages that files may have, by their names; none
where the languages decide themselves. -/
def typedGrammars (s : Survey) (r : Registry) (forced : Option Language) :
    List (String × Grammar) :=
  if s.emitTypes then
    (languageNames r forced).filterMap fun name =>
      (r.byName? name).map fun l => (name, l.grammar.withTypeSymbols true)
  else []

/-- The grammar that stands for a language in a table, or else its own. -/
def grammarOf (typed : List (String × Grammar)) (l : Language) : Grammar :=
  (typed.lookup l.name).getD l.grammar

/-- The scan of a file, if it is not passed over. -/
def scanFile? (s : Survey) (r : Registry) (d : Disk) (cwd : Location) (forced : Option Language)
    (typed : List (String × Grammar)) (path : String) : Option FileScan := do
  let shown := Path.relativeTo s.base path
  if s.isExcluded shown then none
  let l ← languageOf? r forced path
  let bytes ← (d.readBytes cwd path).toOption
  let result ← (scanBytes (grammarOf typed l) bytes).toOption
  return ⟨shown, l.name, result⟩

/-- The language of all files, if one is given. -/
def forced (s : Survey) (r : Registry) : Except UnknownLanguage (Option Language) :=
  match s.language with
  | none => .ok none
  | some name => (r.require name).map some

/-- The scans of some files in the order of their relative paths. -/
def run (s : Survey) (r : Registry) (d : Disk) (cwd : Location) (files : List String) :
    Except UnknownLanguage (List FileScan) := do
  let forced ← s.forced r
  let scans := files.filterMap (s.scanFile? r d cwd forced (s.typedGrammars r forced))
  return scans.mergeSort fun a b => Path.le a.path b.path

end Survey

end DeclTags
