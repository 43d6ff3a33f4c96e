import DeclTags.Text.Quoted

set_option autoImplicit false

/-! # Tokens

A token is a classified piece of the source text together with its place. Offsets count bytes from
0, lines and columns count from 1, and columns count characters. -/

namespace DeclTags

/-- What a token is. -/
inductive TokenKind where
  /-- A word that is not reserved. -/
  | identifier
  /-- A reserved word. -/
  | keyword
  /-- A run that begins with a digit. -/
  | number
  /-- A single character of no other kind. -/
  | punctuation (char : Char)
  | stringLiteral
  | charLiteral
  /-- A comment up to the end of its line, the line end not included. -/
  | lineComment
  /-- A comment between two markers, possibly over several lines. -/
  | blockComment
  /-- White space inside a line. -/
  | blank
  | newline
  | endOfInput
  deriving DecidableEq, Repr, Inhabited

namespace TokenKind

/-- The name of the kind. -/
def name : TokenKind → String
  | .identifier => "identifier"
  | .keyword => "keyword"
  | .number => "number"
  | .punctuation _ => "punctuation"
  | .stringLiteral => "string"
  | .charLiteral => "char"
  | .lineComment => "line_comment"
  | .blockComment => "block_comment"
  | .blank => "whitespace"
  | .newline => "newline"
  | .endOfInput => "eof"

/-- The name of the kind, with the character of a punctuation. -/
def label : TokenKind → String
  | .punctuation c => "punctuation '" ++ c.toString ++ "'"
  | kind => kind.name

/-- White space and line ends, which structure never depends on. -/
def isBlank : TokenKind → Bool
  | .blank | .newline => true
  | _ => false

def isComment : TokenKind → Bool
  | .lineComment | .blockComment => true
  | _ => false

/-- String, character and number literals. -/
def isLiteral : TokenKind → Bool
  | .stringLiteral | .charLiteral | .number => true
  | _ => false

end TokenKind

/-- A classified piece of the source text. -/
structure Token where
  kind : TokenKind
  /-- The exact text of the token. -/
  text : String
  /-- The offset of its first byte. -/
  start : Nat
  /-- The offset after its last byte. -/
  stop : Nat
  line : Nat
  column : Nat
  /-- False for a literal or block comment that lacks its closing delimiter. -/
  terminated : Bool := true
  deriving DecidableEq, Repr, Inhabited

namespace Token

/-- Whether the token is the punctuation `c`. -/
def isPunct (t : Token) (c : Char) : Bool := t.kind == .punctuation c

def isIdentifier (t : Token) : Bool := t.kind == .identifier

def isKeyword (t : Token) : Bool := t.kind == .keyword

/-- An identifier or a keyword. -/
def isWord (t : Token) : Bool := t.isIdentifier || t.isKeyword

/-- Whether the token takes part in structure: everything but white space and line ends. -/
def isSignificant (t : Token) : Bool := !t.kind.isBlank

/-- The token for a reader: its kind, its text in quotes and its place. -/
def describe (t : Token) : String :=
  t.kind.label ++ " " ++ Text.quoted t.text ++ " at " ++ toString t.line ++ ":" ++
    toString t.column

end Token

end DeclTags
