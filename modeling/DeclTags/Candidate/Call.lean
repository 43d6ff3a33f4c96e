import DeclTags.Candidate.Bracket
import DeclTags.Grammar
import DeclTags.Text.Bytes

set_option autoImplicit false

/-! # Names with arguments

The shape that declarations, calls and constructions share: a name and a group of parentheses at
the end of a run, perhaps with type arguments between them. It is read off the run from its end, so
the runs here are given backwards, the last token first. -/

namespace DeclTags

/-- A run that ends with a name and a group of parentheses. -/
structure CallShape where
  /-- The tokens before the name, last first. -/
  before : List Token
  name : Token
  /-- The group with its parentheses. -/
  group : List Token
  deriving DecidableEq, Repr

namespace CallShape

/-- The backward run without the type arguments at its end, if there are any. -/
def withoutTypeArguments? (back : List Token) : Option (List Token) :=
  if back.head?.any (·.isPunct '>') then (Bracket.angles.flip.splitGroup? back).map (·.2)
  else some back

/-- The shape of the backward run, if it is of the form
`before name <type arguments> ( arguments )`. -/
def ofBack? (back : List Token) : Option CallShape := do
  let (group, back) ← Bracket.parens.flip.splitGroup? back
  match ← withoutTypeArguments? back with
  | name :: before => if name.isIdentifier then some ⟨before, name, group.reverse⟩ else none
  | [] => none

end CallShape

/-- The source text between the first and the last token of a group. -/
def groupText (source : String) (group : List Token) : String :=
  match group.head?, group.getLast? with
  | some opening, some closing => Text.slice opening.stop closing.start source
  | _, _ => ""

/-! ## Constructions -/

/-- The backward run without the qualifiers at its end, each a name and a point. -/
def withoutQualifiers : List Token → List Token
  | point :: name :: back =>
    if point.isPunct '.' && name.isIdentifier then withoutQualifiers back
    else point :: name :: back
  | back => back

/-- Whether the backward run ends with the construction of an object: the keyword, a dotted name,
type arguments if there are any, and arguments. -/
def endsWithConstruction (g : Grammar) (back : List Token) : Bool :=
  (CallShape.ofBack? back).any fun s =>
    (withoutQualifiers s.before).head?.any fun t => t.isKeyword && g.isAnonymousClass t.text

/-! ## Calls -/

/-- Why arguments read as those of a call and not as parameters. -/
inductive CallReason where
  | literal (text : String)
  | construction (keyword : String)
  deriving DecidableEq, Repr

def CallReason.message : CallReason → String
  | .literal text => "argument " ++ text ++ " is a literal"
  | .construction keyword => "argument constructs an object with '" ++ keyword ++ "'"

/-- The first reason to read the tokens as arguments of a call. Only tokens outside of inner
parentheses count, and of the literals only those outside of a default value, which reaches from
`=` to the next comma. -/
def callReasonFrom (g : Grammar) (depth : Nat) (inDefault : Bool) :
    List Token → Option CallReason
  | [] => none
  | t :: run =>
    if t.isPunct '(' then callReasonFrom g (depth + 1) inDefault run
    else if t.isPunct ')' then callReasonFrom g (depth - 1) inDefault run
    else if 0 < depth then callReasonFrom g depth inDefault run
    else if t.isPunct '=' then callReasonFrom g depth true run
    else if t.isPunct ',' then callReasonFrom g depth false run
    else if t.kind.isLiteral && !inDefault then some (.literal t.text)
    else if t.isKeyword && g.isAnonymousClass t.text then some (.construction t.text)
    else callReasonFrom g depth inDefault run

/-- The first reason to read the tokens as arguments of a call. -/
def callReason? (g : Grammar) (arguments : List Token) : Option CallReason :=
  callReasonFrom g 0 false arguments

end DeclTags
