import DeclTags.Json.Basic

set_option autoImplicit false

/-! # Reading JSON

`Json.parse?` reads a text that is one JSON value, white space around it allowed. Each reading
function takes the text and gives what it read and the rest of the text. The depth of nesting is
bounded by a fuel, which is the length of the text and thus never runs out. -/

namespace DeclTags.Json

/-- White space between the parts of a JSON text. -/
def isSpace (c : Char) : Bool := c = ' ' || c = '\t' || c = '\n' || c = '\r'

def skipSpace (cs : List Char) : List Char := cs.dropWhile isSpace

/-- The value of a hexadecimal digit. -/
def hexValue? (c : Char) : Option Nat :=
  if '0' ≤ c ∧ c ≤ '9' then some (c.toNat - 48)
  else if 'a' ≤ c ∧ c ≤ 'f' then some (c.toNat - 87)
  else if 'A' ≤ c ∧ c ≤ 'F' then some (c.toNat - 55)
  else none

/-- The value of four hexadecimal digits. -/
def hexValue4? (a b c d : Char) : Option Nat := do
  return (((← hexValue? a) * 16 + (← hexValue? b)) * 16 + (← hexValue? c)) * 16 + (← hexValue? d)

/-- Whether a UTF-16 unit is the first or the second of a surrogate pair. -/
def isHighSurrogate (unit : Nat) : Bool := 0xD800 ≤ unit && unit < 0xDC00

def isLowSurrogate (unit : Nat) : Bool := 0xDC00 ≤ unit && unit < 0xE000

/-- The character that a backslash and one more character stand for. -/
def simpleEscape? : Char → Option Char
  | '"' => some '"'
  | '\\' => some '\\'
  | '/' => some '/'
  | 'b' => some '\x08'
  | 'f' => some '\x0c'
  | 'n' => some '\n'
  | 'r' => some '\r'
  | 't' => some '\t'
  | _ => none

/-- The rest of a string up to its closing quote, after the characters of `read` (last first). -/
def stringBody (read : List Char) : List Char → Option (String × List Char)
  | [] => none
  | '"' :: rest => some (String.ofList read.reverse, rest)
  | '\\' :: 'u' :: a :: b :: c :: d :: '\\' :: 'u' :: e :: f :: g :: h :: rest => do
    let unit ← hexValue4? a b c d
    if isHighSurrogate unit then
      let low ← hexValue4? e f g h
      if isLowSurrogate low then
        stringBody (Char.ofNat (0x10000 + (unit - 0xD800) * 0x400 + (low - 0xDC00)) :: read) rest
      else none
    else if isLowSurrogate unit then none
    else stringBody (Char.ofNat unit :: read) ('\\' :: 'u' :: e :: f :: g :: h :: rest)
  | '\\' :: 'u' :: a :: b :: c :: d :: rest => do
    let unit ← hexValue4? a b c d
    if isHighSurrogate unit || isLowSurrogate unit then none
    else stringBody (Char.ofNat unit :: read) rest
  | '\\' :: c :: rest => do stringBody ((← simpleEscape? c) :: read) rest
  | c :: rest => if c.toNat < 0x20 then none else stringBody (c :: read) rest

/-- A string with its quotes. -/
def readString (cs : List Char) : Option (String × List Char) :=
  match cs with
  | '"' :: rest => stringBody [] rest
  | _ => none

/-- The value of decimal digits. -/
def digitsValue (digits : List Char) : Nat :=
  digits.foldl (fun n c => n * 10 + (c.toNat - 48)) 0

/-- The size of a number's fraction or exponent: marked by one character of `marks`, then a sign
if `signed`, then at least one digit. Zero if there is none, `none` if it has no digit. -/
def partLength? (marks : List Char) (signed : Bool) : List Char → Option Nat
  | [] => some 0
  | c :: rest =>
    if marks.contains c then
      let sign := if signed && rest.head?.any (fun s => s = '+' || s = '-') then 1 else 0
      let digits := ((rest.drop sign).takeWhile Char.isDigit).length
      if digits = 0 then none else some (1 + sign + digits)
    else some 0

/-- A number. It does not begin with a zero unless that is all of its whole part. -/
def readNumber (cs : List Char) : Option (Json × List Char) := do
  let sign := if cs.head? = some '-' then 1 else 0
  let whole := (cs.drop sign).takeWhile Char.isDigit
  if whole.isEmpty || (whole.head? = some '0' && 1 < whole.length) then none
  else
    let rest := cs.drop (sign + whole.length)
    let fraction ← partLength? ['.'] false rest
    let exponent ← partLength? ['e', 'E'] true (rest.drop fraction)
    let after := rest.drop (fraction + exponent)
    if sign + fraction + exponent = 0 then some (.nat (digitsValue whole), after)
    else
      let text := cs.take (sign + whole.length + fraction + exponent)
      some (.otherNumber (String.ofList text), after)

/-- A value that is written with letters. -/
def readWord : List Char → Option (Json × List Char)
  | 'n' :: 'u' :: 'l' :: 'l' :: rest => some (.null, rest)
  | 't' :: 'r' :: 'u' :: 'e' :: rest => some (.bool true, rest)
  | 'f' :: 'a' :: 'l' :: 's' :: 'e' :: rest => some (.bool false, rest)
  | _ => none

mutual

/-- A value, white space before it allowed. -/
def readValue : Nat → List Char → Option (Json × List Char)
  | 0, _ => none
  | fuel + 1, cs =>
    match skipSpace cs with
    | [] => none
    | '"' :: rest => (stringBody [] rest).map fun (s, rest) => (.string s, rest)
    | '[' :: rest =>
      match skipSpace rest with
      | ']' :: rest => some (.list [], rest)
      | rest => (readItems fuel rest).map fun (js, rest) => (.list js, rest)
    | '\x7b' :: rest =>
      match skipSpace rest with
      | '\x7d' :: rest => some (.object [], rest)
      | rest => (readFields fuel rest).map fun (js, rest) => (.object js, rest)
    | c :: rest => if c = '-' || c.isDigit then readNumber (c :: rest) else readWord (c :: rest)

/-- The items of a list and its closing bracket. -/
def readItems : Nat → List Char → Option (List Json × List Char)
  | 0, _ => none
  | fuel + 1, cs => do
    let (j, rest) ← readValue fuel cs
    match skipSpace rest with
    | ',' :: rest =>
      let (js, rest) ← readItems fuel rest
      some (j :: js, rest)
    | ']' :: rest => some ([j], rest)
    | _ => none

/-- The fields of an object and its closing bracket. -/
def readFields : Nat → List Char → Option (List (String × Json) × List Char)
  | 0, _ => none
  | fuel + 1, cs => do
    let (name, rest) ← readString (skipSpace cs)
    match skipSpace rest with
    | ':' :: rest =>
      let (j, rest) ← readValue fuel rest
      match skipSpace rest with
      | ',' :: rest =>
        let (js, rest) ← readFields fuel rest
        some ((name, j) :: js, rest)
      | '\x7d' :: rest => some ([(name, j)], rest)
      | _ => none
    | _ => none

end

/-- The value that the text is. -/
def parse? (text : String) : Option Json :=
  match readValue (text.length + 1) text.toList with
  | some (j, rest) => if (skipSpace rest).isEmpty then some j else none
  | none => none

end DeclTags.Json
