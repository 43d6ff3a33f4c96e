import DeclTags.Command.Arguments
import DeclTags.Command.Outcome
import DeclTags.Report.Document
import DeclTags.Text.Layout

set_option autoImplicit false

/-! # Help

What the program says when its arguments ask for no command. -/

namespace DeclTags

/-- How an option is written. -/
def CommandOption.shown (o : CommandOption) : String :=
  let letter :=
    match o.letter with
    | some c => String.ofList ['-', c] ++ ", "
    | none => "    "
  letter ++ "--" ++ o.name ++ if o.takesValue then " VALUE" else ""

/-- A command line and the options on it. -/
def Usage.shown (u : Usage) (line : String) : String :=
  line ++ "\n" ++ String.join (u.options.map fun o => "  " ++ o.shown ++ "\n")

def helpText : String :=
  String.intercalate "\n"
    [Usage.program.shown "bracetag COMMAND", Usage.scan.shown "bracetag scan PATH",
      Usage.profiles.shown "bracetag profiles"]

namespace UsageStop

def message : UsageStop → String
  | .help => helpText
  | .version => "bracetag " ++ DeclTags.version ++ "\n"
  | .nothingGiven => helpText
  | .missingCommand => "error: a command is needed: scan or profiles\n"
  | .unknownCommand name => "error: there is no command '" ++ name ++ "'\n"
  | .missingArgument name => "error: the " ++ name ++ " is missing\n"
  | .unknownArgument argument => "error: the argument '" ++ argument ++ "' is not expected\n"
  | .missingValue name => "error: a value is needed for '" ++ name ++ "'\n"
  | .unwantedValue name => "error: '--" ++ name ++ "' takes no value\n"
  | .repeated name => "error: '--" ++ name ++ "' is given twice\n"

/-- Help and the version are what was asked for; all else is a failure. -/
def status : UsageStop → ExitStatus
  | .help | .version => .success
  | _ => .failure

/-- The message goes to the output if it was asked for, and to the errors otherwise. -/
def outcome (e : Environment) (stop : UsageStop) : Outcome :=
  match stop.status with
  | .success => { status := .success, stdout := stop.message, disk := e.disk }
  | status => { status, stderr := stop.message, disk := e.disk }

end UsageStop

end DeclTags
