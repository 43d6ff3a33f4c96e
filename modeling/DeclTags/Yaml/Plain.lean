import DeclTags.Yaml.Node

set_option autoImplicit false

/-! # The meaning of plain scalars

A plain scalar may stand for null, a truth value or a number. A text that would be read as one of
these has to be quoted, which is what `isMeaningful` decides. -/

namespace DeclTags.Yaml

/-! ## Words -/

/-- The words for null. -/
def nullWords : List String := ["null", "Null", "NULL", "~"]

def isNull (text : String) : Bool := text.isEmpty || nullWords.contains text

def boolOf? (text : String) : Option Bool :=
  if ["true", "True", "TRUE"].contains text then some true
  else if ["false", "False", "FALSE"].contains text then some false
  else none

/-! ## Whole numbers -/

/-- The value of a digit in some base of at most 16. -/
def digitValue? (base : Nat) (c : Char) : Option Nat :=
  let value? :=
    if '0' ≤ c ∧ c ≤ '9' then some (c.toNat - 48)
    else if 'a' ≤ c ∧ c ≤ 'f' then some (c.toNat - 87)
    else if 'A' ≤ c ∧ c ≤ 'F' then some (c.toNat - 55)
    else none
  value?.filter (· < base)

/-- The value of at least one digit in some base. -/
def digitsValue? (base : Nat) (cs : List Char) : Option Nat :=
  if cs.isEmpty then none
  else cs.foldlM (fun n c => (digitValue? base c).map (n * base + ·)) 0

def isDigits (cs : List Char) : Bool := cs.all Char.isDigit

/-- The text without a sign at its head. -/
def withoutSign : List Char → List Char
  | '+' :: cs => cs
  | '-' :: cs => cs
  | cs => cs

/-- A zero with digits after it, which is no number. -/
def hasLeadingZero (cs : List Char) : Bool :=
  match withoutSign cs with
  | '0' :: digit :: rest => isDigits (digit :: rest)
  | _ => false

/-- The value of a number without sign: decimal, or behind `0x`, `0o` or `0b`. -/
def magnitude? : List Char → Option Nat
  | '0' :: 'x' :: cs => digitsValue? 16 cs
  | '0' :: 'o' :: cs => digitsValue? 8 cs
  | '0' :: 'b' :: cs => digitsValue? 2 cs
  | cs => if hasLeadingZero cs then none else digitsValue? 10 cs

/-- A number of at least zero, perhaps behind `+`. -/
def natOf? (text : String) : Option Nat :=
  match text.toList with
  | '+' :: cs => magnitude? cs
  | cs => magnitude? cs

/-- The magnitude of a number behind `-`. -/
def negativeOf? (text : String) : Option Nat :=
  match text.toList with
  | '-' :: cs => magnitude? cs
  | _ => none

/-! ## Numbers with a point or an exponent -/

/-- A decimal number: its digits as one number, and the power of ten that it is multiplied by. -/
structure Decimal where
  digits : Nat
  exponent : Int
  deriving DecidableEq, Repr

namespace Decimal

/-- The exponent at the end of a number. -/
def exponentOf? : List Char → Option Int
  | [] => some 0
  | mark :: cs =>
    if mark = 'e' || mark = 'E' then
      (digitsValue? 10 (withoutSign cs)).map fun n => if cs.head? = some '-' then -n else n
    else none

/-- A decimal number without sign. It has at least one digit. -/
def ofChars? (cs : List Char) : Option Decimal :=
  let whole := cs.takeWhile Char.isDigit
  let rest := cs.dropWhile Char.isDigit
  let fraction := if rest.head? = some '.' then rest.tail.takeWhile Char.isDigit else []
  let rest := if rest.head? = some '.' then rest.tail.dropWhile Char.isDigit else rest
  match digitsValue? 10 (whole ++ fraction), exponentOf? rest with
  | some digits, some exponent => some ⟨digits, exponent - fraction.length⟩
  | _, _ => none

/-- The least number that is rounded to infinity with a significand of 53 bits and a greatest
binary exponent of 1023. -/
def overflow : Nat := Nat.pow 2 1024 - Nat.pow 2 970

/-- Whether the number can be held by a double-precision number. -/
def isFinite (d : Decimal) : Bool :=
  if d.digits = 0 then true
  else
    let size : Int := (toString d.digits).length + d.exponent
    if size < 300 then true
    else if 320 < size then false
    else if 0 ≤ d.exponent then d.digits * Nat.pow 10 d.exponent.toNat < overflow
    else d.digits < overflow * Nat.pow 10 (-d.exponent).toNat

end Decimal

/-- The words for infinities and for no number. -/
def floatWords : List String :=
  [".inf", ".Inf", ".INF", "+.inf", "+.Inf", "+.INF", "-.inf", "-.Inf", "-.INF", ".nan", ".NaN",
    ".NAN"]

/-- Whether the text is a number with a point or an exponent, or a word for one. -/
def isFloat (text : String) : Bool :=
  floatWords.contains text
    || (!hasLeadingZero text.toList
      && (Decimal.ofChars? (withoutSign text.toList)).any Decimal.isFinite)

/-! ## All of them -/

/-- Whether the text is a whole number of at most 128 bits. -/
def isWhole (text : String) : Bool :=
  (natOf? text).any (· < Nat.pow 2 128) || (negativeOf? text).any (· ≤ Nat.pow 2 127)

/-- Whether a plain scalar would be read as something else than its text, or would be a number if
it had no leading zeros. -/
def isMeaningful (text : String) : Bool :=
  isNull text || (boolOf? text).isSome || isWhole text || isFloat text
    || hasLeadingZero text.toList

end DeclTags.Yaml
