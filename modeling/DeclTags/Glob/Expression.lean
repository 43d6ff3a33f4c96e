import DeclTags.Glob

set_option autoImplicit false

/-! # Patterns as regular expressions

A pattern stands for a regular expression over bytes, which is used where a set of patterns is
matched. `Glob.expression` is its text. Expressions that are nested too deeply are refused;
`Glob.nesting` counts the levels: groups, alternatives, repetitions, classes, and sequences and
classes of more than one part. -/

namespace DeclTags.Glob

/-! ## The text of an expression -/

/-- The characters with a meaning in expressions. -/
def expressionMarks : List Char :=
  ['\\', '.', '+', '*', '?', '(', ')', '|', '[', ']', '\x7b', '\x7d', '^', '$', '#', '&', '-', '~']

/-- A byte in an expression: the character itself, behind a backslash if it has a meaning, and
above ASCII its number. -/
def byteText (b : UInt8) : List Char :=
  if b < 0x80 then
    let c := Char.ofNat b.toNat
    if expressionMarks.contains c then ['\\', c] else [c]
  else '\\' :: 'x' :: Nat.toDigits 16 b.toNat

def charText (c : Char) : List Char := (Text.bytesOf [c]).flatMap byteText

def rangeText (range : Char × Char) : List Char :=
  charText range.1 ++ if range.1 = range.2 then [] else '-' :: charText range.2

mutual

def tokenText : GlobToken → List Char
  | .literal c => charText c
  | .any => ['.']
  | .anyRun => ['.', '*']
  | .leadingParts => "(?:/?|.*/)".toList
  | .trailingParts => "/.*".toList
  | .innerParts => "(?:/|/.*/)".toList
  | .charClass negated ranges =>
    '[' :: ((if negated then ['^'] else []) ++ ranges.flatMap rangeText ++ [']'])
  | .branches patterns =>
    if areVoid patterns then []
    else "(?:".toList ++ ['|'].intercalate (branchTexts patterns) ++ [')']

/-- The texts of the branches that are none without anything to match. -/
def branchTexts : List (List GlobToken) → List (List Char)
  | [] => []
  | pattern :: patterns =>
    if isVoid pattern then branchTexts patterns else tokensText pattern :: branchTexts patterns

def tokensText : List GlobToken → List Char
  | [] => []
  | token :: tokens => tokenText token ++ tokensText tokens

end

/-- The text of the pattern's expression. -/
def expression (g : Glob) : String :=
  let body :=
    match g.tokens with
    | [.leadingParts] => ['.', '*']
    | tokens => tokensText tokens
  "(?-u)^" ++ String.ofList body ++ "$"

/-! ## Nesting -/

/-- Parts of an expression side by side: their number, and the levels of the deepest one. -/
structure PartCount where
  parts : Nat := 0
  levels : Nat := 0
  deriving DecidableEq, Repr

namespace PartCount

def append (a b : PartCount) : PartCount := ⟨a.parts + b.parts, max a.levels b.levels⟩

/-- The levels of the parts as a sequence, which is a level if it has more than one of them. -/
def sequenceLevels (c : PartCount) : Nat := if 1 < c.parts then c.levels + 1 else c.levels

/-- A group with the alternatives of which the sequence levels are given. -/
def ofAlternatives : List Nat → PartCount
  | [] => {}
  | [levels] => ⟨1, levels + 1⟩
  | levels => ⟨1, levels.foldr max 0 + 2⟩

end PartCount

mutual

def tokenParts : GlobToken → PartCount
  | .literal c => ⟨c.utf8Size, 0⟩
  | .any => ⟨1, 0⟩
  | .anyRun => ⟨1, 1⟩
  | .leadingParts | .innerParts => ⟨1, 4⟩
  | .trailingParts => ⟨2, 1⟩
  | .charClass _ ranges => ⟨1, if 1 < (ranges.flatMap byteRanges).length then 2 else 1⟩
  | .branches patterns => .ofAlternatives (branchLevels patterns)

/-- The levels of the branches that are none without anything to match. -/
def branchLevels : List (List GlobToken) → List Nat
  | [] => []
  | pattern :: patterns =>
    if isVoid pattern then branchLevels patterns
    else (tokensParts pattern).sequenceLevels :: branchLevels patterns

def tokensParts : List GlobToken → PartCount
  | [] => {}
  | token :: tokens => (tokenParts token).append (tokensParts tokens)

end

/-- The levels of the pattern's expression, which is a sequence with marks at its two ends. -/
def nesting (g : Glob) : Nat :=
  match g.tokens with
  | [.leadingParts] => 2
  | tokens => (tokensParts tokens).levels + 1

/-- The greatest number of levels that an expression may have. -/
def nestingLimit : Nat := 250

def isTooDeep (g : Glob) : Bool := nestingLimit < g.nesting

end DeclTags.Glob
