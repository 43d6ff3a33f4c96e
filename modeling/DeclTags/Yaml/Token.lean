import DeclTags.Yaml.Scalar

set_option autoImplicit false

/-! # YAML tokens

The text of a document as a list of tokens in which indentation has become brackets: a block list
or map begins with a token of its own and ends with `blockEnd`.

That a scalar or a bracketed collection is the key of a map is known only when the colon after it
is met. Until then it is a pending key, and the tokens of the key are put in before it. -/

namespace DeclTags.Yaml

inductive Token where
  | documentStart
  | documentEnd
  | blockList
  | blockMap
  | blockEnd
  /-- The hyphen before an item. -/
  | item
  | key
  | value
  | openList
  | closeList
  | openMap
  | closeMap
  | comma
  | scalar (value : Scalar)
  deriving DecidableEq, Repr, Inhabited

/-- Something that is a key if a colon follows on the same line. -/
structure PendingKey where
  place : Place
  /-- The number of tokens before it. -/
  token : Nat
  /-- Whether nothing but a key may stand at this place. -/
  required : Bool
  deriving DecidableEq, Repr, Inhabited

/-- A scanner between two tokens: the input behind the last of them, and what it has to remember. -/
structure Scanner extends Input where
  /-- The columns of the open block collections, innermost first. -/
  indents : List Nat := []
  /-- The pending keys of the open brackets, innermost first, and of the block around them. -/
  keys : List (Option PendingKey) := [none]
  /-- Whether a key may begin here. -/
  keyAllowed : Bool := true
  tokens : Array Token := #[]
  deriving Inhabited

namespace Scanner

/-- Whether a bracket is open. -/
def inFlow (s : Scanner) : Bool := !s.keys.tail.isEmpty

/-- The column from which on a line belongs to the innermost block collection's inside. -/
def insideColumn (s : Scanner) : Nat := s.indents.head?.elim 0 (· + 1)

/-- Goes on to an input further on in the text. -/
def moveTo (i : Input) (s : Scanner) : Scanner := { s with toInput := i }

def skip (n : Nat) (s : Scanner) : Scanner := s.moveTo (s.toInput.skip n)

def push (t : Token) (s : Scanner) : Scanner := { s with tokens := s.tokens.push t }

/-- Puts a token before the one at an index. -/
def insert (index : Nat) (t : Token) (s : Scanner) : Scanner :=
  { s with tokens := s.tokens.insertIdxIfInBounds index t }

/-! ## Pending keys -/

def setKey (key : Option PendingKey) (s : Scanner) : Scanner :=
  { s with keys := key :: s.keys.tail }

/-- Gives up the pending key; a required one may not be given up. -/
def dropKey? (s : Scanner) : Option Scanner :=
  if s.keys.head?.join.any (·.required) then none else some (s.setKey none)

/-- Makes a pending key of what begins here, if a key may begin here. -/
def saveKey? (s : Scanner) : Option Scanner :=
  if s.keyAllowed then
    s.dropKey?.map (·.setKey (some
      { place := s.place
        token := s.tokens.size
        required := !s.inFlow && s.indents.head? == some s.place.column }))
  else some s

/-- The greatest number of bytes between the begin of a key and its colon. -/
def keyLimit : Nat := 1024

/-- Gives up the pending keys that are on an earlier line or too far away. -/
def dropStaleKeys? (s : Scanner) : Option Scanner := do
  let keys ← s.keys.mapM fun key =>
    match key with
    | none => some none
    | some k =>
      if k.place.line < s.place.line || k.place.offset + keyLimit < s.place.offset then
        if k.required then none else some none
      else some (some k)
  return { s with keys }

/-! ## Indentation -/

/-- Opens a block collection at a column further right than the innermost one, its token standing
before the one at `index`. -/
def openBlock (t : Token) (column index : Nat) (s : Scanner) : Scanner :=
  if !s.inFlow && s.indents.head?.all (· < column) then
    { s.insert index t with indents := column :: s.indents }
  else s

/-- Closes the block collections that stand further right than the column `column`; all of them if
there is none. -/
def closeBlocks (column : Option Nat) (s : Scanner) : Scanner :=
  if s.inFlow then s
  else
    let deeper := s.indents.takeWhile fun indent => column.all (· < indent)
    { s with
      indents := s.indents.drop deeper.length
      tokens := s.tokens ++ Array.replicate deeper.length .blockEnd }

/-! ## Between tokens -/

/-- The input from the next token on, and whether a key may begin there, the text beginning at `p`.
At the begin of a line (`lineStart`) a byte order mark is passed over, inside of a comment
(`comment`) everything up to the line's end. Tabs are passed over only where no key may begin. -/
def nextToken (inFlow keyAllowed lineStart comment : Bool) (p : Place) :
    List Char → Bool × Input
  | [] => (keyAllowed, ⟨p, []⟩)
  | c :: cs =>
    if isBreak c then nextToken inFlow (keyAllowed || !inFlow) true false (p.step c) cs
    else if comment || c = '#' then nextToken inFlow keyAllowed false true (p.step c) cs
    else if c = ' ' || (c = '\t' && (inFlow || !keyAllowed)) || (c = '\ufeff' && lineStart) then
      nextToken inFlow keyAllowed false false (p.step c) cs
    else (keyAllowed, ⟨p, c :: cs⟩)

/-- Goes on to the next token and settles what its place decides. -/
def settle? (s : Scanner) : Option Scanner := do
  let (keyAllowed, next) :=
    nextToken s.inFlow s.keyAllowed (s.place.column = 0) false s.place s.rest
  let s ← { s.moveTo next with keyAllowed }.dropStaleKeys?
  return s.closeBlocks (some s.place.column)

/-! ## Tokens -/

/-- The end of the text. -/
def finish? (s : Scanner) : Option Scanner := (s.closeBlocks none).dropKey?

/-- A line that begins or ends a document. -/
def marker? (t : Token) (s : Scanner) : Option Scanner := do
  let s ← (s.closeBlocks none).dropKey?
  return { (s.push t).skip 3 with keyAllowed := false }

/-- A bracket that opens a list or map. -/
def openBracket? (t : Token) (s : Scanner) : Option Scanner := do
  let s ← s.saveKey?
  return { (s.push t).skip 1 with keys := none :: s.keys, keyAllowed := true }

/-- A bracket that closes a list or map. -/
def closeBracket? (t : Token) (s : Scanner) : Option Scanner := do
  let s ← s.dropKey?
  let keys := if s.inFlow then s.keys.tail else s.keys
  return { (s.push t).skip 1 with keys, keyAllowed := false }

def comma? (s : Scanner) : Option Scanner := do
  let s ← s.dropKey?
  return { (s.push .comma).skip 1 with keyAllowed := true }

/-- The hyphen before an item of a block list. -/
def item? (s : Scanner) : Option Scanner := do
  if !s.inFlow && !s.keyAllowed then none
  let s ← (s.openBlock .blockList s.place.column s.tokens.size).dropKey?
  return { (s.push .item).skip 1 with keyAllowed := true }

/-- The mark of a key that is not on the line of its colon. -/
def explicitKey? (s : Scanner) : Option Scanner := do
  if !s.inFlow && !s.keyAllowed then none
  let s ← (s.openBlock .blockMap s.place.column s.tokens.size).dropKey?
  return { (s.push .key).skip 1 with keyAllowed := !s.inFlow }

/-- A colon. It makes a key of what is pending; without that it may stand only where a key may
begin. -/
def value? (s : Scanner) : Option Scanner :=
  match s.keys.head?.join with
  | some key =>
    let s := (s.insert key.token .key).openBlock .blockMap key.place.column key.token
    some { ((s.setKey none).push .value).skip 1 with keyAllowed := false }
  | none => do
    if !s.inFlow && !s.keyAllowed then none
    let s := s.openBlock .blockMap s.place.column s.tokens.size
    return { (s.push .value).skip 1 with keyAllowed := !s.inFlow }

/-- A scalar in quotes, `read` reading what follows its opening quote. -/
def quoted? (style : ScalarStyle) (read : Input → Option (String × Input)) (s : Scanner) :
    Option Scanner := do
  let s ← s.saveKey?
  let (text, after) ← read (s.toInput.skip 1)
  return { (s.push (.scalar ⟨style, text⟩)).moveTo after with keyAllowed := false }

/-- A block scalar. -/
def block? (style : ScalarStyle) (s : Scanner) : Option Scanner := do
  let s ← s.dropKey?
  let (text, after) ← Scalar.block (style == .folded) s.indents.head? (s.toInput.skip 1)
  return { (s.push (.scalar ⟨style, text⟩)).moveTo after with keyAllowed := true }

/-- A plain scalar. If it ends at a line end, a key may begin after it. -/
def plain? (s : Scanner) : Option Scanner := do
  let s ← s.saveKey?
  let (reading, after) ← Scalar.plain s.inFlow s.insideColumn {} s.place s.rest
  return { (s.push (.scalar ⟨.plain, reading.text⟩)).moveTo after with
    keyAllowed := reading.gap.any isBreak }

/-- The characters that begin no plain scalar. -/
def indicators : List Char :=
  ['-', '?', ':', ',', '[', ']', '\x7b', '\x7d', '#', '&', '*', '!', '|', '>', '\'', '"', '%', '@',
    '\x60']

/-- Whether a plain scalar begins here. A hyphen may begin one if no blank follows; a question mark
or colon outside of brackets, if no gap does. -/
def startsPlain (inFlow : Bool) : List Char → Bool
  | [] => false
  | c :: cs =>
    !(isGap c || indicators.contains c)
      || (c = '-' && !cs.head?.any isBlank)
      || (!inFlow && (c = '?' || c = ':') && !atGap cs)

/-- The token that begins here. -/
def token? (s : Scanner) : Option Scanner :=
  let atLineStart := s.place.column = 0
  match s.rest with
  | [] => none
  | c :: cs =>
    if atLineStart && c = '%' then none
    else if atLineStart && c = '-' && atMarker s.rest then s.marker? .documentStart
    else if atLineStart && c = '.' && atMarker s.rest then s.marker? .documentEnd
    else if c = '[' then s.openBracket? .openList
    else if c = '\x7b' then s.openBracket? .openMap
    else if c = ']' then s.closeBracket? .closeList
    else if c = '\x7d' then s.closeBracket? .closeMap
    else if c = ',' then s.comma?
    else if c = '-' && atGap cs then s.item?
    else if c = '?' && (s.inFlow || atGap cs) then s.explicitKey?
    else if c = ':' && (s.inFlow || atGap cs) then s.value?
    else if c = '|' && !s.inFlow then s.block? .literal
    else if c = '>' && !s.inFlow then s.block? .folded
    else if c = '\'' then
      s.quoted? .singleQuoted fun i => Scalar.singleQuoted {} i.place i.rest
    else if c = '"' then s.quoted? .doubleQuoted (Scalar.doubleQuoted {})
    else if startsPlain s.inFlow s.rest then s.plain?
    else none

/-- The tokens up to the end of the text. -/
def run? : Nat → Scanner → Option (List Token)
  | 0, _ => none
  | fuel + 1, s => do
    let s ← s.settle?
    if s.rest.isEmpty then s.finish?.map (·.tokens.toList)
    else run? fuel (← s.token?)

end Scanner

/-- The tokens of a text. -/
def tokensOf? (text : String) : Option (List Token) :=
  if text.toList.all isReadable then
    let cs := normalized text.toList
    Scanner.run? (cs.length + 1) { rest := cs }
  else none

end DeclTags.Yaml
