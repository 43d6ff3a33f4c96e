import DeclTags.Candidate.Bracket
import DeclTags.Grammar

set_option autoImplicit false

/-! # What stands before a declaration

A declaration may begin with attribute lists in square brackets, and then with annotations and
modifiers in any order. Attribute lists count only at the very beginning. -/

namespace DeclTags

/-- An annotation or a modifier: its number of tokens, and the word if it is a modifier. -/
structure LeadingPiece where
  size : Nat
  modifier : Option String
  size_pos : 0 < size := by omega
  deriving Repr

namespace LeadingPiece

/-- The number of tokens of the point-separated names at the head of a run that follows a name, `n`
of them being behind already. -/
def qualifierLengthFrom (n : Nat) : List Token → Nat
  | point :: name :: run =>
    if point.isPunct '.' && name.isIdentifier then qualifierLengthFrom (n + 2) run else n
  | _ => n

/-- The number of tokens of an annotation's arguments; `none` if they are not closed. -/
def argumentsLength? (run : List Token) : Option Nat :=
  if run.head?.any (·.isPunct '(') then Bracket.parens.groupLength run else some 0

/-- An annotation: `@`, a dotted name, and arguments in parentheses if there are any. -/
def annotation? : List Token → Option LeadingPiece
  | sign :: name :: run =>
    if sign.isPunct '@' && name.isIdentifier then
      let n := qualifierLengthFrom 0 run
      (argumentsLength? (run.drop n)).map fun k => { size := 2 + n + k, modifier := none }
    else none
  | _ => none

/-- A modifier that is a keyword by itself. -/
def keyword? (g : Grammar) : List Token → Option LeadingPiece
  | t :: _ =>
    if t.isKeyword && g.isModifier t.text then
      some { size := 1, modifier := some t.text, size_pos := Nat.one_pos }
    else none
  | [] => none

/-- A modifier of two words with a hyphen between them and no space. -/
def hyphenated? (g : Grammar) : List Token → Option LeadingPiece
  | first :: hyphen :: second :: _ =>
    let word := first.text ++ "-" ++ second.text
    if first.isWord && hyphen.isPunct '-' && second.isWord && first.stop == hyphen.start
        && hyphen.stop == second.start && g.isModifier word then
      some { size := 3, modifier := some word }
    else none
  | _ => none

/-- The annotation or modifier at the head of the run. -/
def atHead? (g : Grammar) (run : List Token) : Option LeadingPiece :=
  annotation? run <|> keyword? g run <|> hyphenated? g run

theorem atHead?_nil (g : Grammar) : atHead? g [] = none := rfl

end LeadingPiece

/-- The number of tokens of the attribute lists that the run begins with, `n` tokens being behind
already; `none` if one of them is not closed. -/
def attributesLengthFrom (n : Nat) (run : List Token) : Option Nat :=
  if run.head?.any (·.isPunct '[') then
    match _h : Bracket.squares.groupLength run with
    | none => none
    | some k => attributesLengthFrom (n + k) (run.drop k)
  else some n
termination_by run.length
decreasing_by
  have := Bracket.groupLength_pos _h
  have := Bracket.groupLength_le _h
  rw [List.length_drop]
  omega

theorem attributesLengthFrom_eq (n : Nat) (run : List Token) :
    attributesLengthFrom n run =
      if run.head?.any (·.isPunct '[') then
        (Bracket.squares.groupLength run).bind fun k => attributesLengthFrom (n + k) (run.drop k)
      else some n := by
  rw [attributesLengthFrom]
  split
  · split
    · next h => rw [h, Option.bind_none]
    · next h => rw [h, Option.bind_some]
  · rfl

/-- What stands before a declaration: its modifiers, each once and in order, and the number of
tokens it takes. -/
structure Leading where
  modifiers : List String := []
  size : Nat := 0
  deriving DecidableEq, Repr, Inhabited

namespace Leading

/-- The leading part with one more piece. -/
def add (piece : LeadingPiece) (l : Leading) : Leading where
  modifiers :=
    match piece.modifier with
    | some word => if l.modifiers.contains word then l.modifiers else l.modifiers ++ [word]
    | none => l.modifiers
  size := l.size + piece.size

/-- The leading part with the annotations and modifiers that the run after it begins with. -/
def extend (g : Grammar) (l : Leading) (run : List Token) : Leading :=
  match _h : LeadingPiece.atHead? g run with
  | none => l
  | some piece => extend g (l.add piece) (run.drop piece.size)
termination_by run.length
decreasing_by
  have := piece.size_pos
  cases run with
  | nil => simp [LeadingPiece.atHead?_nil] at _h
  | cons t run => rw [List.length_drop, List.length_cons]; omega

theorem extend_eq (g : Grammar) (l : Leading) (run : List Token) :
    extend g l run =
      match LeadingPiece.atHead? g run with
      | none => l
      | some piece => extend g (l.add piece) (run.drop piece.size) := by
  rw [extend]
  split
  · next h => rw [h]
  · next h => rw [h]

/-- The attribute lists, annotations and modifiers that the run begins with. None are taken if an
attribute list is not closed. -/
def ofRun (g : Grammar) (run : List Token) : Leading :=
  match attributesLengthFrom 0 run with
  | none => {}
  | some n => extend g { size := n } (run.drop n)

end Leading

end DeclTags
