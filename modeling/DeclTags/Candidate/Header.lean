import DeclTags.Candidate.Call
import DeclTags.Candidate.Leading
import DeclTags.Candidate.Tail
import DeclTags.Symbol

set_option autoImplicit false

/-! # Headers

A header is a candidate read as a declaration: `TypeHeader` as that of a type, `CallableHeader` as
that of a method or constructor. Neither depends on the enclosing scopes; which kind a callable
header declares depends only on the name of the type around it. -/

namespace DeclTags

/-! ## Control blocks -/

/-- The run without the labels that it begins with. -/
def withoutLabels : List Token → List Token
  | label :: colon :: run =>
    if label.isIdentifier && colon.isPunct ':' then withoutLabels run else label :: colon :: run
  | run => run

/-- Whether the run begins with a control keyword, labels aside. A control keyword that is also a
modifier has to be followed by a parenthesis. -/
def startsWithControl (g : Grammar) (run : List Token) : Bool :=
  match withoutLabels run with
  | [] => false
  | t :: rest =>
    t.isKeyword && g.isControl t.text
      && (!g.isModifier t.text || rest.head?.any (·.isPunct '('))

/-! ## Types -/

/-- The tokens a type consists of. -/
def isTypeToken (g : Grammar) (t : Token) : Bool :=
  match t.kind with
  | .identifier => true
  | .keyword => g.isTypeKeyword t.text
  | .punctuation c => ['<', '>', ',', '.', '?', '[', ']', '&'].contains c
  | _ => false

/-- The tokens that may end a type right before a name. -/
def endsType (g : Grammar) (t : Token) : Bool :=
  match t.kind with
  | .identifier => true
  | .keyword => g.isTypeKeyword t.text
  | .punctuation c => c = '>' || c = ']'
  | _ => false

/-- Whether the tokens can be the type of a method. -/
def isTypeRun (g : Grammar) (run : List Token) : Bool :=
  run.all (isTypeToken g) && run.getLast?.any (endsType g)

/-- The head of a type declaration. -/
structure TypeHeader where
  modifiers : List String
  name : Token
  /-- What follows the name. -/
  rest : List Token
  deriving DecidableEq, Repr

namespace TypeHeader

/-- The header that the run begins with: a leading part, `@` or nothing, the keyword and a
name. -/
def ofRun? (g : Grammar) (run : List Token) : Option TypeHeader :=
  let leading := Leading.ofRun g run
  let rest := run.drop leading.size
  match if rest.head?.any (·.isPunct '@') then rest.tail else rest with
  | keyword :: name :: rest =>
    if keyword.isKeyword && g.isTypeDeclaration keyword.text && name.isIdentifier then
      some ⟨leading.modifiers, name, rest⟩
    else none
  | _ => none

/-- What follows the name and its type parameters; nothing if these are not closed. -/
def afterTypeParameters (rest : List Token) : List Token :=
  if rest.head?.any (·.isPunct '<') then ((Bracket.angles.splitGroup? rest).map (·.2)).getD []
  else rest

/-- The text of the components, if the name is followed by a closed group of parentheses. -/
def componentText (source : String) (h : TypeHeader) : String :=
  match Bracket.parens.splitGroup? (afterTypeParameters h.rest) with
  | some (group, _) => groupText source group
  | none => ""

end TypeHeader

/-! ## Methods and constructors -/

/-- A candidate read as the header of a method or constructor. -/
structure CallableHeader where
  modifiers : List String
  /-- The tokens of the type; a constructor has none. -/
  type : List Token
  name : Token
  /-- The parameters with their parentheses. -/
  group : List Token
  /-- Whether a chain to another constructor follows the parameters. -/
  chained : Bool
  deriving DecidableEq, Repr

namespace CallableHeader

/-- The tokens behind the type parameters that stand before a type; `none` if these are not
closed. -/
def withoutTypeParameters? (run : List Token) : Option (List Token) :=
  if run.head?.any (·.isPunct '<') then (Bracket.angles.splitGroup? run).map (·.2) else some run

/-- The header that the run is, if it is of the form
`leading <type parameters> type name <type parameters> ( parameters ) tail`. Only a header with a
body has a chain in its tail. -/
def ofRun? (g : Grammar) (withBody : Bool) (run : List Token) : Option CallableHeader := do
  let run ← withoutTrailingClause? g run
  let back := run.reverse
  let chain := if withBody then beforeInitializer? g back else none
  let shape ← CallShape.ofBack? (chain.getD back)
  let before := shape.before.reverse
  let leading := Leading.ofRun g before
  let type ← withoutTypeParameters? (before.drop leading.size)
  some ⟨leading.modifiers, type, shape.name, shape.group, chain.isSome⟩

/-- What the header declares inside of the type named `owner`: without a type and with a body a
constructor of that type, with a type and without a chain a method. -/
def kind? (g : Grammar) (owner : Option String) (withBody : Bool) (h : CallableHeader) :
    Option SymbolKind :=
  if h.type.isEmpty then
    if withBody && owner == some h.name.text then some .constructor else none
  else if isTypeRun g h.type && !h.chained then some .method
  else none

/-- Why the header reads as a call, if it does. -/
def callReason? (g : Grammar) (h : CallableHeader) : Option CallReason :=
  DeclTags.callReason? g h.group.tail.dropLast

end CallableHeader

end DeclTags
