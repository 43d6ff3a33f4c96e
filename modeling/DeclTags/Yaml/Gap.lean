set_option autoImplicit false

/-! # Characters, gaps and folding

A gap is a run of spaces, tabs and line breaks. Inside of a scalar a gap without a line break stands
for itself, a single line feed with the blanks around it for a space, and of several breaks the
first one, if it is a line feed, is dropped.

Of the line breaks only the line feed and the two separators `U+2028` and `U+2029` are known here:
`normalized` turns every other one into a line feed before a text is read. -/

namespace DeclTags.Yaml

def isBreak (c : Char) : Bool := c = '\n' || c = '\u2028' || c = '\u2029'

/-- A space or a tab. -/
def isBlank (c : Char) : Bool := c = ' ' || c = '\t'

/-- A character of a gap. -/
def isGap (c : Char) : Bool := isBlank c || isBreak c

/-- Whether the text ends here or goes on with a gap. -/
def atGap (cs : List Char) : Bool := cs.head?.all isGap

/-- Whether a line begins here that begins or ends a document. -/
def atMarker : List Char → Bool
  | '-' :: '-' :: '-' :: cs => atGap cs
  | '.' :: '.' :: '.' :: cs => atGap cs
  | _ => false

/-- The characters that may stand in a document. -/
def isReadable (c : Char) : Bool :=
  let n := c.toNat
  n = 0x09 || n = 0x0A || n = 0x0D || (0x20 ≤ n && n ≤ 0x7E) || n = 0x85
    || (0xA0 ≤ n && n ≤ 0xFFFD) || 0x10000 ≤ n

/-- The text of `read` (last first), and then the text with line feeds for carriage returns, for
pairs of carriage return and line feed, and for next-line characters. -/
def normalizedOnto (read : List Char) : List Char → List Char
  | [] => read.reverse
  | '\r' :: '\n' :: cs => normalizedOnto ('\n' :: read) cs
  | '\r' :: cs => normalizedOnto ('\n' :: read) cs
  | '\u0085' :: cs => normalizedOnto ('\n' :: read) cs
  | c :: cs => normalizedOnto (c :: read) cs

/-- The text with line feeds for every line break but the two separators. -/
def normalized (cs : List Char) : List Char := normalizedOnto [] cs

/-- What a gap inside of a scalar stands for. -/
def folded (gap : List Char) : List Char :=
  match gap.filter isBreak with
  | [] => gap
  | ['\n'] => [' ']
  | '\n' :: breaks => breaks
  | breaks => breaks

end DeclTags.Yaml
