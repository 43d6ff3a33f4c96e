import DeclTags.Registry

set_option autoImplicit false

/-! # What commands see and what they leave -/

namespace DeclTags

/-- What a command sees of its surroundings. -/
structure Environment where
  disk : Disk
  cwd : Location
  /-- The path of the directory with the profiles of the user. -/
  userDirectory : Option String
  deriving Repr, Inhabited

/-- The languages at the start of a command. -/
def Environment.registry (e : Environment) : Registry :=
  Registry.start e.disk e.cwd e.userDirectory {}

/-- How a command ends. -/
inductive ExitStatus where
  | success
  /-- The scan was strict and met a warning. -/
  | warned
  | failure
  deriving DecidableEq, Repr, Inhabited

def ExitStatus.code : ExitStatus → Nat
  | .success => 0
  | .warned => 1
  | .failure => 2

/-- What a command leaves behind. -/
structure Outcome where
  status : ExitStatus
  stdout : String := ""
  stderr : String := ""
  disk : Disk
  deriving Repr, Inhabited

namespace Outcome

/-- The outcome of a command that fails with an error and changes nothing. -/
def failed (e : Environment) (message : String) : Outcome where
  status := .failure
  stderr := message ++ "\n"
  disk := e.disk

end Outcome

end DeclTags
