set_option autoImplicit false

/-! # JSON values

The fields of an object keep their order. Numbers count things, so only natural numbers have a
value here; a number with a sign, a fraction or an exponent is kept as it is written. -/

namespace DeclTags

inductive Json where
  | null
  | bool (value : Bool)
  | nat (value : Nat)
  | otherNumber (text : String)
  | string (value : String)
  | list (items : List Json)
  | object (fields : List (String × Json))
  deriving Repr, Inhabited

namespace Json

/-- A value or null. -/
def ofOption (value : Option Json) : Json := value.getD .null

def ofStrings (texts : List String) : Json := .list (texts.map .string)

/-- The value of a field; of the first one, if the name is repeated. -/
def field? (name : String) : Json → Option Json
  | .object fields => fields.lookup name
  | _ => none

def bool? : Json → Option Bool
  | .bool b => some b
  | _ => none

def string? : Json → Option String
  | .string s => some s
  | _ => none

/-- A text of exactly one character. -/
def char? : Json → Option Char
  | .string s =>
    match s.toList with
    | [c] => some c
    | _ => none
  | _ => none

def list? : Json → Option (List Json)
  | .list items => some items
  | _ => none

/-- A list of which every item is read. -/
def listOf? {α : Type} (read : Json → Option α) (j : Json) : Option (List α) :=
  j.list?.bind fun items => items.mapM read

def strings? (j : Json) : Option (List String) := j.listOf? string?

/-- A value that may be null. -/
def nullable? {α : Type} (read : Json → Option α) : Json → Option (Option α)
  | .null => some none
  | j => (read j).map some

end Json

end DeclTags
