import DeclTags.Command.Help
import DeclTags.Command.Scan

set_option autoImplicit false

/-! # Running commands -/

namespace DeclTags

namespace Command

/-- Where a profile comes from, by the name of its language. -/
def originName (name : String) : String :=
  if Profile.builtinNames.contains name then "built-in" else "user"

/-- The line of a language in the list of profiles. -/
def profileLine (l : Language) : String :=
  "  " ++ Text.padRight 16 l.name ++ " " ++ Text.padRight 10 (originName l.name) ++ " " ++
    String.intercalate " " (l.profile.extensions.map ("." ++ ·)) ++ "\n"

/-- The list of profiles, and where the user can put more of them. -/
def profileList (r : Registry) (userDirectory : Option String) : String :=
  "Available profiles:\n\n" ++ String.join (r.languages.map profileLine) ++
    match userDirectory with
    | some path => "\nUser profiles are loaded from " ++ path ++ "\n"
    | none => ""

def runProfiles (e : Environment) : Option String → Outcome
  | none =>
    { status := .success, stdout := profileList e.registry e.userDirectory, disk := e.disk }
  | some name =>
    match e.registry.byName? name with
    | some l => { status := .success, stdout := l.profile.toYaml, disk := e.disk }
    | none => Outcome.failed e ("Error: unknown language " ++ Text.quoted name)

def run (e : Environment) : Command → Outcome
  | .scan request => request.run e
  | .profiles shown => runProfiles e shown

end Command

end DeclTags
