import DeclTags.Token
import DeclTags.Text.Blank

set_option autoImplicit false

/-! # Symbols

A symbol is a declaration found in the source, with the texts that reports show of it: its dotted
name, its signature on one line and the summary of its doc comment. -/

namespace DeclTags

/-- The place of a symbol's name. -/
structure Span where
  startByte : Nat
  /-- The offset after the last byte. -/
  endByte : Nat
  line : Nat
  column : Nat
  deriving DecidableEq, Repr, Inhabited

namespace Span

/-- The place of a token. -/
def ofToken (t : Token) : Span := ⟨t.start, t.stop, t.line, t.column⟩

/-- Line and column, with a colon between them. -/
def shown (s : Span) : String := toString s.line ++ ":" ++ toString s.column

end Span

/-- What is declared. -/
inductive SymbolKind where
  | method
  | constructor
  | type
  deriving DecidableEq, Repr, Inhabited

namespace SymbolKind

def name : SymbolKind → String
  | .method => "method"
  | .constructor => "constructor"
  | .type => "type"

/-- Methods and constructors. -/
def isCallable : SymbolKind → Bool
  | .method | .constructor => true
  | .type => false

/-- The kind of a given name. -/
def ofName? (s : String) : Option SymbolKind :=
  [SymbolKind.method, .constructor, .type].find? (·.name == s)

end SymbolKind

/-- The path segment of an anonymous class's body. -/
def anonymousSegment : String := "<anonymous>"

/-- A declaration found in the source. -/
structure Symbol where
  name : String
  kind : SymbolKind
  /-- In source order, each once. -/
  modifiers : List String
  /-- The source text between the parentheses of the parameter list. -/
  parameterText : String
  /-- The line of the declaration's first token. -/
  startLine : Nat
  span : Span
  /-- The names of the enclosing declarations, outermost first. -/
  path : List String
  /-- The last block comment before the declaration. -/
  docComment : Option String := none
  deriving DecidableEq, Repr, Inhabited

namespace Symbol

/-- The names of the enclosing declarations and of the symbol itself, with points between them. -/
def qualifiedName (s : Symbol) : String := String.intercalate "." (s.path ++ [s.name])

/-- Modifiers, name and, for what can be called, the parameters. -/
def signature (s : Symbol) : String :=
  let parameters :=
    if s.kind.isCallable then
      "(" ++ String.ofList (Text.trim s.parameterText.toList) ++ ")"
    else ""
  String.intercalate " " (s.modifiers ++ [s.name ++ parameters])

end Symbol

/-! ## Doc comments -/

namespace DocComment

def isStar (c : Char) : Bool := c = '*'

/-- The text without the characters of class `p` at its end. -/
def dropTrailing (p : Char → Bool) (cs : List Char) : List Char :=
  (cs.reverse.dropWhile p).reverse

/-- The text between the delimiters of a closed block comment: a slash and all stars after it at
the beginning, all stars and a slash at the end. The two may not share a star. -/
def closedBody? : List Char → Option (List Char)
  | '/' :: '*' :: cs =>
    let inner := cs.dropWhile isStar
    if ['*', '/'].isSuffixOf inner then some (dropTrailing isStar inner.dropLast)
    else if inner = ['/'] ∧ cs.head? = some '*' then some []
    else none
  | _ => none

/-- The text of a comment without its delimiters; of one that is not closed, without the slashes
and then the stars at its beginning. -/
def body (comment : List Char) : List Char :=
  match closedBody? comment with
  | some inner => inner
  | none => (comment.dropWhile (· = '/')).dropWhile isStar

/-- Where in its line the next character stands. -/
inductive Margin where
  /-- In the white space at the beginning of a line, line ends included: its characters so far, last
  first. -/
  | indent (blanks : List Char)
  /-- In the star run that stands first on a line. -/
  | stars
  /-- Behind that. -/
  | inside
  deriving DecidableEq, Repr

namespace Margin

/-- The margin after a character that is kept. -/
def after (c : Char) : Margin := if c = '\n' then .indent [] else .inside

end Margin

/-- The text without the star runs that stand first on a line, the white space before them and a
single space after them, following the text `kept` (last first). -/
def withoutStarsOnto (kept : List Char) : Margin → List Char → List Char
  | .indent blanks, [] => (blanks ++ kept).reverse
  | _, [] => kept.reverse
  | .indent blanks, c :: cs =>
    if isStar c then withoutStarsOnto kept .stars cs
    else if Text.isBlank c then withoutStarsOnto kept (.indent (c :: blanks)) cs
    else withoutStarsOnto (c :: (blanks ++ kept)) .inside cs
  | .stars, c :: cs =>
    if isStar c then withoutStarsOnto kept .stars cs
    else if c = ' ' then withoutStarsOnto kept .inside cs
    else withoutStarsOnto (c :: kept) (.after c) cs
  | .inside, c :: cs => withoutStarsOnto (c :: kept) (.after c) cs

/-- The text without the star runs that stand first on a line. -/
def withoutStars (cs : List Char) : List Char := withoutStarsOnto [] (.indent []) cs

/-- The words of a comment without its delimiters and the stars before its lines. -/
def summaryWords (comment : String) : List String :=
  (Text.words (withoutStars (body (Text.trim comment.toList)))).map String.ofList

end DocComment

/-- The doc comment on one line, if it says anything. -/
def Symbol.docSummary? (s : Symbol) : Option String :=
  match s.docComment.elim [] DocComment.summaryWords with
  | [] => none
  | words => some (String.intercalate " " words)

end DeclTags
