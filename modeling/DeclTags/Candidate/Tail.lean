import DeclTags.Candidate.Bracket
import DeclTags.Grammar

set_option autoImplicit false

/-! # What follows the parameters

Behind its parameters a declaration may carry a trailing clause, a chain to another constructor, a
default value or an expression body. Each of them is found behind the first closed group of
parentheses, and is cut off before the rest is judged. -/

namespace DeclTags

/-- The run cut before the first token behind a closed group of parentheses, and outside of all of
them, from where on `starts` holds. `before` are the tokens behind already (last first), `depth`
parentheses are open there, and `closed` tells whether a group was closed. -/
def cutAfterGroupFrom (starts : List Token → Bool) (before : List Token) (depth : Nat)
    (closed : Bool) : List Token → Option (List Token × List Token)
  | [] => none
  | t :: run =>
    if t.isPunct '(' then cutAfterGroupFrom starts (t :: before) (depth + 1) closed run
    else if t.isPunct ')' then
      cutAfterGroupFrom starts (t :: before) (depth - 1) (closed || depth ≤ 1) run
    else if closed && depth == 0 && starts (t :: run) then some (before.reverse, t :: run)
    else cutAfterGroupFrom starts (t :: before) depth closed run

/-- The run cut before the first token behind a closed group of parentheses from where on `starts`
holds. -/
def cutAfterGroup? (starts : List Token → Bool) (run : List Token) :
    Option (List Token × List Token) :=
  cutAfterGroupFrom starts [] 0 false run

/-- The tokens of a trailing clause after its keyword: words, and the punctuation of types and
constraints. -/
def isClauseToken (t : Token) : Bool :=
  match t.kind with
  | .identifier | .keyword => true
  | .punctuation c => ['.', ',', '<', '>', '?', ':', '(', ')', '[', ']'].contains c
  | _ => false

/-- Whether a trailing clause begins here. -/
def startsTrailingClause (g : Grammar) (run : List Token) : Bool :=
  run.head?.any fun t => t.isKeyword && g.isTrailingClause t.text

/-- The run without its trailing clause; `none` if there is one and it is malformed. -/
def withoutTrailingClause? (g : Grammar) (run : List Token) : Option (List Token) :=
  match cutAfterGroup? (startsTrailingClause g) run with
  | none => some run
  | some (before, clause) =>
    if !clause.tail.isEmpty && clause.tail.all isClauseToken then some before else none

/-- The part of a backward run before the colon of a chain to another constructor, if the run ends
with one. -/
def beforeInitializer? (g : Grammar) (back : List Token) : Option (List Token) := do
  let (_, back) ← Bracket.parens.flip.splitGroup? back
  match back with
  | keyword :: colon :: before =>
    if keyword.isKeyword && g.isConstructorInitializer keyword.text && colon.isPunct ':' then
      some before
    else none
  | _ => none

/-- What may stand between a member's parameters and its semicolon. -/
inductive MemberTail where
  | defaultValue
  | expressionBody
  deriving DecidableEq, Repr

/-- Whether the run begins with these punctuation characters, the first one at the byte offset
`start` and no space between them. -/
def spellsFrom (start : Nat) : List Char → List Token → Bool
  | [], _ => true
  | _ :: _, [] => false
  | c :: cs, t :: run => t.isPunct c && t.start == start && spellsFrom t.stop cs run

/-- Whether the run begins with the text, spelled as adjacent punctuation. -/
def spells (text : String) (run : List Token) : Bool :=
  spellsFrom ((run.head?.map Token.start).getD 0) text.toList run

/-- The tail that begins here, and the number of tokens of its mark. -/
def tailMark? (g : Grammar) (run : List Token) : Option (MemberTail × Nat) :=
  if run.head?.any fun t => t.isKeyword && g.isDefaultValue t.text then some (.defaultValue, 1)
  else g.expressionBodyArrow.bind fun arrow =>
    if spells arrow run then some (.expressionBody, arrow.length) else none

/-- The run before its first tail, and that tail, if something follows the tail's mark. -/
def memberTail? (g : Grammar) (run : List Token) : Option (List Token × MemberTail) := do
  let (before, rest) ← cutAfterGroup? (fun run => (tailMark? g run).isSome) run
  let (tail, n) ← tailMark? g rest
  if n < rest.length then some (before, tail) else none

end DeclTags
