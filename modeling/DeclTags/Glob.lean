import DeclTags.Text.Bytes

set_option autoImplicit false

/-! # Glob patterns

A pattern is matched against a whole path. `?` stands for one byte and `*` for any number of them,
slashes included, `[…]` for a byte of a class and `{…,…}` for one of its branches. `**` that fills
a whole part between slashes stands for any number of parts, none among them.

Here are the tokens that a pattern is read into. What they match is in `Glob.Match`, the regular
expression that they stand for in `Glob.Expression`. -/

namespace DeclTags

inductive GlobToken where
  | literal (char : Char)
  /-- `?` -/
  | any
  /-- `*` -/
  | anyRun
  /-- `**` at the begin, with the slash after it. -/
  | leadingParts
  /-- `**` at the end, with the slash before it. -/
  | trailingParts
  /-- `**` in the middle, with the slashes around it. -/
  | innerParts
  /-- A class of ranges. -/
  | charClass (negated : Bool) (ranges : List (Char × Char))
  | branches (patterns : List (List GlobToken))
  deriving Repr, Inhabited

/-- Why a pattern cannot be read. -/
inductive GlobFault where
  | unclosedClass
  | invalidRange (first last : Char)
  | unopenedBranches
  | unclosedBranches
  | danglingEscape
  deriving DecidableEq, Repr

def GlobFault.message : GlobFault → String
  | .unclosedClass => "unclosed character class; missing ']'"
  | .invalidRange first last =>
    "invalid range; '" ++ first.toString ++ "' > '" ++ last.toString ++ "'"
  | .unopenedBranches =>
    "unopened alternate group; missing '\x7b' (maybe escape '\x7d' with '[\x7d]'?)"
  | .unclosedBranches =>
    "unclosed alternate group; missing '\x7d' (maybe escape '\x7b' with '[\x7b]'?)"
  | .danglingEscape => "dangling '\\'"

structure Glob where
  tokens : List GlobToken
  deriving Repr, Inhabited

namespace Glob

/-! ## Reading classes -/

/-- The ranges of a class while it is read, the last one first, and whether a hyphen waits for the
end of the last one. -/
structure ClassReading where
  ranges : List (Char × Char) := []
  inRange : Bool := false

namespace ClassReading

/-- The class with one more character, which ends the last range or is a range of its own. -/
def add (c : Char) (r : ClassReading) : Except GlobFault ClassReading :=
  match r.inRange, r.ranges with
  | true, (first, _) :: ranges =>
    if c < first then .error (.invalidRange first c) else .ok ⟨(first, c) :: ranges, false⟩
  | _, ranges => .ok ⟨(c, c) :: ranges, false⟩

/-- All ranges in order; a hyphen at the end stands for itself. -/
def done (r : ClassReading) : List (Char × Char) :=
  (if r.inRange then ('-', '-') :: r.ranges else r.ranges).reverse

end ClassReading

/-- The rest of a class up to its closing bracket. A bracket that comes first stands for itself. -/
def readClass (first : Bool) (r : ClassReading) :
    List Char → Except GlobFault (List (Char × Char) × List Char)
  | [] => .error .unclosedClass
  | c :: cs =>
    if c = ']' && !first then .ok (r.done, cs)
    else if c = '-' && !first && !r.inRange then readClass false { r with inRange := true } cs
    else do readClass false (← r.add c) cs

/-- What follows the opening bracket of a class. -/
def classToken (cs : List Char) : Except GlobFault (GlobToken × List Char) := do
  let negated := cs.head?.any fun c => c = '!' || c = '^'
  let (ranges, rest) ← readClass true {} (if negated then cs.tail else cs)
  return (.charClass negated ranges, rest)

/-! ## Reading patterns -/

/-- The branches around the one that is read. -/
structure OpenBranches where
  /-- The finished ones, the last one first. -/
  finished : List (List GlobToken)
  /-- The tokens before them, the last one first. -/
  before : List GlobToken

/-- A pattern while it is read: the tokens of the innermost branch, the last one first, and the
branches around it. -/
structure Reading where
  tokens : List GlobToken := []
  around : List OpenBranches := []

namespace Reading

def push (t : GlobToken) (r : Reading) : Reading := { r with tokens := t :: r.tokens }

def inBranches (r : Reading) : Bool := !r.around.isEmpty

def openBranches (r : Reading) : Reading := ⟨[], ⟨[], r.tokens⟩ :: r.around⟩

/-- A comma, which begins the next branch, or stands for itself outside of branches. -/
def comma (r : Reading) : Reading :=
  match r.around with
  | [] => r.push (.literal ',')
  | a :: around => ⟨[], { a with finished := r.tokens.reverse :: a.finished } :: around⟩

def closeBranches (r : Reading) : Except GlobFault Reading :=
  match r.around with
  | [] => .error .unopenedBranches
  | a :: around =>
    .ok ⟨.branches (r.tokens.reverse :: a.finished).reverse :: a.before, around⟩

/-- Puts parts in place of the token before them, which is a slash or the begin of a branch; parts
that are there already stay as they are. -/
def replaceLast (t : GlobToken) (r : Reading) : Reading :=
  match r.tokens with
  | .leadingParts :: _ | .trailingParts :: _ => r
  | _ :: tokens => { r with tokens := t :: tokens }
  | [] => r.push t

/-- Whether a part between slashes may begin behind the character `before`. -/
def partMayBegin (before : Option Char) (r : Reading) : Bool :=
  before = some '/' || (r.inBranches && (before = some ',' || before = some '\x7b'))

/-- Two stars that do not fill a part. -/
def twoStars (r : Reading) : Reading := (r.push .anyRun).push .anyRun

/-- Two stars behind the character `before`, and what is left of the text after them. -/
def doubleStar (before : Option Char) (r : Reading) (cs : List Char) : Reading × List Char :=
  if r.tokens.isEmpty then
    match cs with
    | [] => (r.push .leadingParts, [])
    | c :: rest => if c = '/' then (r.push .leadingParts, rest) else (r.twoStars, cs)
  else if !r.partMayBegin before then (r.twoStars, cs)
  else
    match cs with
    | [] => (r.replaceLast .trailingParts, [])
    | c :: rest =>
      if c = '/' then (r.replaceLast .innerParts, rest)
      else if r.inBranches && (c = ',' || c = '\x7d') then (r.replaceLast .trailingParts, cs)
      else (r.twoStars, cs)

end Reading

/-- The character before the rest of a text, `before` being the one before the whole text. -/
def charBefore (before : Option Char) (cs rest : List Char) : Option Char :=
  (cs.take (cs.length - rest.length)).getLast?.or before

/-- The tokens of the text behind the character `before`. The fuel bounds the recursion; the length
of the text is enough. -/
def readFrom : Nat → Option Char → Reading → List Char → Except GlobFault Reading
  | 0, _, r, _ => .ok r
  | _, _, r, [] => .ok r
  | fuel + 1, before, r, c :: cs =>
    if c = '?' then readFrom fuel (some c) (r.push .any) cs
    else if c = '*' then
      match cs with
      | '*' :: rest =>
        let (r, after) := r.doubleStar before rest
        readFrom fuel (charBefore (some c) rest after) r after
      | _ => readFrom fuel (some c) (r.push .anyRun) cs
    else if c = '[' then do
      let (token, after) ← classToken cs
      readFrom fuel (charBefore (some c) cs after) (r.push token) after
    else if c = '\x7b' then readFrom fuel (some c) r.openBranches cs
    else if c = '\x7d' then do readFrom fuel (some c) (← r.closeBranches) cs
    else if c = ',' then readFrom fuel (some c) r.comma cs
    else if c = '\\' then
      match cs with
      | [] => .error .danglingEscape
      | d :: rest => readFrom fuel (some d) (r.push (.literal d)) rest
    else readFrom fuel (some c) (r.push (.literal c)) cs

/-- The pattern that a text is. -/
def parse (pattern : String) : Except GlobFault Glob := do
  let r ← readFrom pattern.length none {} pattern.toList
  if r.inBranches then throw .unclosedBranches
  return ⟨r.tokens.reverse⟩

/-! ## Parts of patterns -/

/-- The ranges of bytes that a range of characters spells: its ends are written as bytes, with the
hyphen between them. -/
def byteRanges (range : Char × Char) : List (UInt8 × UInt8) :=
  let first := Text.bytesOf [range.1]
  let last := Text.bytesOf [range.2]
  if range.1 = range.2 then first.map fun b => (b, b)
  else
    (first.dropLast.map fun b => (b, b)) ++ (first.getLast?.toList.zip last.head?.toList) ++
      last.tail.map fun b => (b, b)

mutual

/-- Whether a branch has nothing to match; it is then no branch at all. -/
def isVoid : List GlobToken → Bool
  | [] => true
  | .branches patterns :: tokens => areVoid patterns && isVoid tokens
  | _ :: _ => false

def areVoid : List (List GlobToken) → Bool
  | [] => true
  | pattern :: patterns => isVoid pattern && areVoid patterns

end

end Glob

end DeclTags
