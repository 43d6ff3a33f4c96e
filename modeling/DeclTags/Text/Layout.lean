set_option autoImplicit false

/-! # Columns, replacements and order of texts -/

namespace DeclTags.Text

/-- The text filled up with spaces on the right to `width` characters. -/
def padRight (width : Nat) (s : String) : String :=
  s ++ String.ofList (List.replicate (width - s.length) ' ')

/-- The position of the first occurrence of `needle`, the text beginning at position `start`. -/
def findFrom (needle : List Char) (start : Nat) : List Char → Option Nat
  | [] => if needle.isEmpty then some start else none
  | c :: cs =>
    if needle.isPrefixOf (c :: cs) then some start else findFrom needle (start + 1) cs

/-- The number of characters before the first occurrence of `needle`. -/
def find? (needle : List Char) (cs : List Char) : Option Nat := findFrom needle 0 cs

/-- The pieces between the occurrences of `separator`; one more than there are occurrences. -/
def splitOn (separator : Char) : List Char → List (List Char)
  | [] => [[]]
  | c :: cs =>
    if c = separator then [] :: splitOn separator cs
    else
      match splitOn separator cs with
      | [] => [[c]]
      | piece :: pieces => (c :: piece) :: pieces

/-- The text with one character in place of another. -/
def replaceChar (old new : Char) (s : String) : String :=
  String.ofList (s.toList.map fun c => if c = old then new else c)

/-- The order of texts by their code points, which is also the order of their bytes. -/
def le (a b : String) : Bool := decide (a ≤ b)

theorem le_total (a b : String) : le a b || le b a := by
  simpa [le] using String.le_total a b

theorem le_trans (a b c : String) (hab : le a b = true) (hbc : le b c = true) : le a c = true :=
  decide_eq_true (String.le_trans (of_decide_eq_true hab) (of_decide_eq_true hbc))

theorem le_of_lt {a b : String} (h : a < b) : le a b = true :=
  decide_eq_true (String.not_lt.mp (String.lt_asymm h))

end DeclTags.Text
