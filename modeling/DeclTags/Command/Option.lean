set_option autoImplicit false

/-! # Options on a command line

The arguments of a command are read one by one. An argument gives an option by its name (`--format`)
or letter (`-f`), is the value of the option before it, names a command, or stands for itself. What
an argument gives is accepted as soon as the next one that is no value of it is met, or the end; so
a fault of the argument that follows can come first. After `--` every argument stands for itself. -/

namespace DeclTags

/-- What an option takes. -/
inductive OptionKind where
  /-- No value. -/
  | flag
  | text
  /-- A path, which is never empty. -/
  | path
  /-- A text each time that the option is given. -/
  | texts
  /-- No value: the help text is asked for. -/
  | help
  /-- No value: the version is asked for. -/
  | version
  deriving DecidableEq, Repr

structure CommandOption where
  name : String
  letter : Option Char
  kind : OptionKind
  deriving DecidableEq, Repr

/-- Whether a value belongs to the option. -/
def CommandOption.takesValue (o : CommandOption) : Bool :=
  o.kind = .text || o.kind = .path || o.kind = .texts

/-- Why some arguments ask for no command. -/
inductive UsageStop where
  | help
  | version
  /-- There are no arguments where a command is needed. -/
  | nothingGiven
  | missingCommand
  | unknownCommand (name : String)
  | missingArgument (name : String)
  | unknownArgument (argument : String)
  | missingValue (option : String)
  | unwantedValue (option : String)
  | repeated (option : String)
  deriving DecidableEq, Repr

/-- What can be given to a command. -/
structure Usage where
  options : List CommandOption
  /-- What the first argument that stands for itself is. -/
  argument : Option CommandOption := none
  /-- The names of the commands that can follow. -/
  commands : List String := []
  deriving DecidableEq, Repr

/-! ## What has been read -/

structure Reading where
  /-- The options that are accepted, with their values, in order. -/
  given : List (CommandOption × String) := []
  /-- The last option, not accepted yet, and its value if that has been read. -/
  pending : Option (CommandOption × Option String) := none
  deriving DecidableEq, Repr

namespace Reading

/-- Whether the last option lacks its value. -/
def isWaiting (r : Reading) : Bool := r.pending.any fun (_, value) => value.isNone

def isGiven (r : Reading) (name : String) : Bool := r.given.any fun (o, _) => o.name = name

/-- The values of an option. -/
def values (r : Reading) (name : String) : List String :=
  (r.given.filter fun (o, _) => o.name = name).map (·.2)

def value? (r : Reading) (name : String) : Option String := (r.values name).head?

/-- Accepts an option. Only one that takes texts is accepted twice. -/
def accept (r : Reading) (o : CommandOption) (value : String) : Except UsageStop Reading :=
  let more : Reading := { r with given := r.given ++ [(o, value)] }
  match o.kind with
  | .help => .error .help
  | .version => .error .version
  | .texts => .ok more
  | .flag | .text => if r.isGiven o.name then .error (.repeated o.name) else .ok more
  | .path =>
    if r.isGiven o.name then .error (.repeated o.name)
    else if value.isEmpty then .error (.missingValue o.name)
    else .ok more

/-- Accepts the last option. -/
def settle (r : Reading) : Except UsageStop Reading :=
  match r.pending with
  | none => .ok r
  | some (o, none) => .error (.missingValue o.name)
  | some (o, some value) => { r with pending := none }.accept o value

/-- Reads an option that is complete. -/
def give (r : Reading) (o : CommandOption) (value : String) : Except UsageStop Reading := do
  (← r.settle).accept o value

/-- Reads an option whose value may follow. -/
def await (r : Reading) (o : CommandOption) (value : Option String) :
    Except UsageStop Reading := do
  return { ← r.settle with pending := some (o, value) }

end Reading

/-! ## Reading arguments -/

namespace Usage

/-- Reads what follows `--`: a name, and perhaps a value after `=`. -/
def long (u : Usage) (r : Reading) (body : List Char) : Except UsageStop Reading :=
  let name := String.ofList (body.takeWhile (· ≠ '='))
  match u.options.find? (·.name = name) with
  | none => .error (.unknownArgument ("--" ++ name))
  | some o =>
    match body.dropWhile (· ≠ '=') with
    | [] => if o.takesValue then r.await o none else r.give o ""
    | _ :: value =>
      if o.takesValue then r.give o (String.ofList value) else .error (.unwantedValue name)

/-- Reads what follows `-`: letters, the value of the last one perhaps after `=`. -/
def letters (u : Usage) : Reading → List Char → Except UsageStop Reading
  | r, [] => .ok r
  | r, c :: cs =>
    match u.options.find? (·.letter = some c) with
    | none => .error (.unknownArgument (String.ofList ['-', c]))
    | some o =>
      if o.takesValue then
        match cs with
        | [] => r.await o none
        | '=' :: value => r.give o (String.ofList value)
        | value => r.give o (String.ofList value)
      else do letters u (← r.give o "") cs

/-- Reads an argument that stands for itself. One that is not expected is taken for a command,
unless it is the name of one and comes after `--`. -/
def itself (u : Usage) (afterDashes : Bool) (r : Reading) (argument : String) :
    Except UsageStop Reading :=
  match u.argument with
  | some o =>
    if r.isGiven o.name || r.pending.any fun (p, _) => p = o then
      .error (.unknownArgument argument)
    else r.await o (some argument)
  | none =>
    if u.commands.isEmpty || afterDashes && u.commands.contains argument then
      .error (.unknownArgument argument)
    else .error (.unknownCommand argument)

/-- Reads arguments up to the name of a command, and gives those from there on. -/
def readFrom (u : Usage) (afterDashes : Bool) (r : Reading) :
    List String → Except UsageStop (Reading × List String)
  | [] => do return (← r.settle, [])
  | a :: rest => do
    if afterDashes then
      u.readFrom true (← u.itself true r a) rest
    else if !r.isWaiting && u.commands.contains a then
      return (← r.settle, a :: rest)
    else if a = "--" then
      u.readFrom true r rest
    else
      match a.toList, r.pending with
      | '-' :: '-' :: body, _ => u.readFrom false (← u.long r body) rest
      | '-' :: c :: cs, _ => u.readFrom false (← u.letters r (c :: cs)) rest
      | _, some (o, none) => u.readFrom false { r with pending := some (o, some a) } rest
      | _, _ => u.readFrom false (← u.itself false r a) rest

def read (u : Usage) (arguments : List String) : Except UsageStop (Reading × List String) :=
  u.readFrom false {} arguments

end Usage

end DeclTags
