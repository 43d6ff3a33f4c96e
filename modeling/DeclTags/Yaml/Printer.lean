import DeclTags.Yaml.Gap
import DeclTags.Yaml.Plain

set_option autoImplicit false

/-! # YAML texts

Nodes as text, one item or entry a line, nested maps indented by two spaces and lists not at all.
`Scalar.ofText` and `Scalar.ofChar` choose the style that a text needs to be read back. -/

namespace DeclTags.Yaml

/-! ## What a text allows -/

/-- A character that stands for itself outside of double quotes. -/
def isPrintable (c : Char) : Bool :=
  let n := c.toNat
  n = 0x0A || (0x20 ≤ n && n ≤ 0x7E)
    || (0xA0 ≤ n && n ≠ 0xFEFF && n ≠ 0xFFFE && n ≠ 0xFFFF)

/-- Whether two neighbours in a text are characters of these classes. -/
def hasPair (p q : Char → Bool) (cs : List Char) : Bool :=
  (cs.zip cs.tail).any fun (c, d) => p c && q d

def isSpaceChar (c : Char) : Bool := c = ' '

/-- Whether the text can be written in single quotes: no line break is next to a space, and all
characters are printable. -/
def allowsSingleQuotes (cs : List Char) : Bool :=
  cs.all isPrintable && !hasPair isSpaceChar isBreak cs && !hasPair isBreak isSpaceChar cs

/-- Whether the text can be written as a block: no line ends with a space, and all characters are
printable. -/
def allowsBlock (cs : List Char) : Bool :=
  !cs.isEmpty && cs.all isPrintable && !hasPair isSpaceChar isBreak cs
    && !cs.getLast?.any isSpaceChar

/-- The characters that a plain scalar never begins with. -/
def openingIndicators : List Char :=
  ['#', ',', '[', ']', '\x7b', '\x7d', '&', '*', '!', '|', '>', '\'', '"', '%', '@', '\x60']

/-- Whether the begin of the text would be read as something else than a scalar. -/
def beginsMarked : List Char → Bool
  | [] => false
  | c :: cs =>
    openingIndicators.contains c || (['?', ':', '-'].contains c && atGap cs)
      || ['-', '-', '-'].isPrefixOf (c :: cs) || ['.', '.', '.'].isPrefixOf (c :: cs)

/-- Whether the text has a colon before a gap or at its end, or a number sign after a gap. -/
def isMarkedInside (cs : List Char) : Bool :=
  hasPair (· = ':') isGap cs || cs.getLast? = some ':' || hasPair isGap (· = '#') cs

/-- Whether the text can be written without quotes. -/
def allowsPlain (cs : List Char) : Bool :=
  cs.all (fun c => isPrintable c && !isBreak c) && !beginsMarked cs && !isMarkedInside cs
    && !cs.head?.any isSpaceChar && !cs.getLast?.any isSpaceChar

namespace Scalar

/-- A text in single quotes, or in double ones if it needs them. -/
def inQuotes (text : String) : Scalar :=
  ⟨if allowsSingleQuotes text.toList then .singleQuoted else .doubleQuoted, text⟩

/-- A text: as a block if it has line feeds, plain if it can be, and else in quotes. -/
def ofText (text : String) : Scalar :=
  if text.toList.contains '\n' then
    ⟨if allowsBlock text.toList then .literal else .doubleQuoted, text⟩
  else if !isMeaningful text && allowsPlain text.toList then ⟨.plain, text⟩
  else inQuotes text

/-- A character, which always has quotes. -/
def ofChar (c : Char) : Scalar := inQuotes c.toString

/-! ## Writing scalars -/

def spaces (n : Nat) : List Char := List.replicate n ' '

/-- The inside of single quotes. The first of some line feeds is doubled, and a line that begins
after breaks is indented. -/
def singleQuotedBody (indent : Nat) (afterBreak : Bool) : List Char → List Char
  | [] => if afterBreak then spaces indent else []
  | c :: cs =>
    if isBreak c then
      (if !afterBreak && c = '\n' then ['\n', c] else [c]) ++ singleQuotedBody indent true cs
    else
      (if afterBreak then spaces indent else []) ++ (if c = '\'' then ['\'', '\''] else [c]) ++
        singleQuotedBody indent false cs

/-- The letters of the escapes that have one. -/
def escapeLetters : List (Char × Char) :=
  [('\x00', '0'), ('\x07', 'a'), ('\x08', 'b'), ('\t', 't'), ('\n', 'n'), ('\x0b', 'v'),
    ('\x0c', 'f'), ('\r', 'r'), ('\x1b', 'e'), ('"', '"'), ('\\', '\\'), ('\u0085', 'N'),
    ('\u2028', 'L'), ('\u2029', 'P')]

/-- A number in hexadecimal with `n` digits, the letters in upper case. -/
def hexDigits (n code : Nat) : List Char :=
  (List.range n).reverse.map fun i =>
    let digit := code / Nat.pow 16 i % 16
    Char.ofNat (if digit < 10 then 48 + digit else 55 + digit)

/-- A character that double quotes do not hold as it is. -/
def escape (c : Char) : List Char :=
  match escapeLetters.lookup c with
  | some letter => ['\\', letter]
  | none =>
    if c.toNat ≤ 0xFF then '\\' :: 'x' :: hexDigits 2 c.toNat
    else if c.toNat ≤ 0xFFFF then '\\' :: 'u' :: hexDigits 4 c.toNat
    else '\\' :: 'U' :: hexDigits 8 c.toNat

/-- The inside of double quotes. -/
def doubleQuotedBody (cs : List Char) : List Char :=
  cs.flatMap fun c =>
    if !isPrintable c || isBreak c || c = '"' || c = '\\' then escape c else [c]

/-- What stands between a block's bar and its first line: the indentation, if it cannot be seen in
the text, and what becomes of the breaks at its end. -/
def blockHints (cs : List Char) : List Char :=
  (if cs.head?.any fun c => isSpaceChar c || isBreak c then ['2'] else []) ++
    match cs.reverse with
    | [] => ['-']
    | c :: before =>
      if !isBreak c then ['-'] else if before.head?.all isBreak then ['+'] else []

/-- The lines of a block; lines without text are not indented. -/
def blockBody (indent : Nat) (afterBreak : Bool) : List Char → List Char
  | [] => []
  | c :: cs =>
    if isBreak c then c :: blockBody indent true cs
    else (if afterBreak then spaces indent else []) ++ c :: blockBody indent false cs

/-- The scalar as text, lines after its first one indented by `indent`. -/
def render (indent : Nat) (s : Scalar) : List Char :=
  let cs := s.text.toList
  match s.style with
  | .plain => cs
  | .singleQuoted => '\'' :: (singleQuotedBody indent false cs ++ ['\''])
  | .doubleQuoted => '"' :: (doubleQuotedBody cs ++ ['"'])
  | .literal => '|' :: (blockHints cs ++ '\n' :: blockBody indent true cs)
  | .folded => '>' :: (blockHints cs ++ '\n' :: blockBody indent true cs)

end Scalar

/-! ## Writing nodes -/

/-- The text with a line feed at its end, if it does not end with a break. -/
def endLine (cs : List Char) : List Char :=
  if cs.getLast?.any isBreak then cs else cs ++ ['\n']

mutual

/-- A node behind a hyphen or a colon, up to the end of its last line. The collection around it is
indented by `indent`. -/
def renderAfter (indent : Nat) : Node → List Char
  | .scalar s => ' ' :: endLine (s.render (indent + 2))
  | .list [] => [' ', '[', ']', '\n']
  | .map [] => [' ', '\x7b', '\x7d', '\n']
  | .list items => '\n' :: renderItems indent items
  | .map entries => '\n' :: renderEntries (indent + 2) entries

/-- The items of a list, one a line. -/
def renderItems (indent : Nat) : List Node → List Char
  | [] => []
  | item :: items =>
    Scalar.spaces indent ++ '-' :: (renderAfter indent item ++ renderItems indent items)

/-- The entries of a map, one a line. -/
def renderEntries (indent : Nat) : List (Node × Node) → List Char
  | [] => []
  | (key, value) :: entries =>
    Scalar.spaces indent ++ renderKey key ++ ':' :: (renderAfter indent value ++
      renderEntries indent entries)

/-- A key; only scalars are keys. -/
def renderKey : Node → List Char
  | .scalar s => s.render 0
  | _ => []

end

/-- The document of a map. -/
def render (entries : List (Node × Node)) : String := String.ofList (renderEntries 0 entries)

end DeclTags.Yaml
