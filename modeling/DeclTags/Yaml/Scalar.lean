import DeclTags.Yaml.Input
import DeclTags.Yaml.Node
import DeclTags.Yaml.Plain

set_option autoImplicit false

/-! # Reading scalars

Each function reads a scalar at the head of an input and gives its text and the input behind it;
`none` says that it is malformed. -/

namespace DeclTags.Yaml.Scalar

/-- What was read of a scalar (last character first), and the gap after it (last character
first), which counts only if the scalar goes on. -/
structure Reading where
  read : List Char := []
  gap : List Char := []
  /-- Whether the gap begins with an escaped line break. -/
  escaped : Bool := false

namespace Reading

/-- What the gap stands for. An escaped break stands for nothing, and the blanks around it too. -/
def gapText (r : Reading) : List Char :=
  if r.escaped then r.gap.reverse.tail.filter isBreak else folded r.gap.reverse

/-- The text with the gap in it, and more characters after that. -/
def put (r : Reading) (cs : List Char) : Reading :=
  { read := cs.reverse ++ (r.gapText.reverse ++ r.read) }

def addGap (r : Reading) (c : Char) : Reading := { r with gap := c :: r.gap }

/-- Whether the gap ends with a line break, so that a line begins after it. -/
def atLineStart (r : Reading) : Bool := r.gap.head?.any isBreak

def text (r : Reading) : String := String.ofList r.read.reverse

/-- The text with the gap before its closing quote. -/
def closed (r : Reading) : String := (r.put []).text

end Reading

/-! ## Quoted scalars -/

/-- The rest of a single-quoted scalar, which begins at `p`. A doubled quote stands for one. -/
def singleQuoted (r : Reading) (p : Place) : List Char → Option (String × Input)
  | [] => none
  | c :: cs =>
    if isGap c then singleQuoted (r.addGap c) (p.step c) cs
    else if r.atLineStart && atMarker (c :: cs) then none
    else if c = '\'' then
      match cs with
      | '\'' :: cs => singleQuoted (r.put ['\'']) ((p.step c).step c) cs
      | cs => some (r.closed, ⟨p.step c, cs⟩)
    else singleQuoted (r.put [c]) (p.step c) cs

/-- What a backslash and one more character stand for. -/
def simpleEscapes : List (Char × Char) :=
  [('0', '\x00'), ('a', '\x07'), ('b', '\x08'), ('t', '\t'), ('\t', '\t'), ('n', '\n'),
    ('v', '\x0b'), ('f', '\x0c'), ('r', '\r'), ('e', '\x1b'), (' ', ' '), ('"', '"'),
    ('/', '/'), ('\\', '\\'), ('N', '\u0085'), ('_', '\u00a0'), ('L', '\u2028'),
    ('P', '\u2029')]

/-- The number of hexadecimal digits behind the letter of an escape. -/
def hexLengths : List (Char × Nat) := [('x', 2), ('u', 4), ('U', 8)]

/-- The character that an escape stands for, and the number of characters behind its backslash. -/
def escapeAt? : List Char → Option (Char × Nat)
  | [] => none
  | c :: cs =>
    match simpleEscapes.lookup c, hexLengths.lookup c with
    | some meaning, _ => some (meaning, 1)
    | none, some n =>
      let digits := cs.take n
      match digitsValue? 16 digits with
      | some code =>
        if digits.length = n && code.isValidChar then some (Char.ofNat code, n + 1) else none
      | none => none
    | none, none => none

/-- The rest of a double-quoted scalar. -/
def doubleQuoted (r : Reading) (i : Input) : Option (String × Input) :=
  match i with
  | ⟨_, []⟩ => none
  | ⟨p, c :: cs⟩ =>
    if isGap c then doubleQuoted (r.addGap c) ⟨p.step c, cs⟩
    else if r.atLineStart && atMarker (c :: cs) then none
    else if c = '"' then some (r.closed, ⟨p.step c, cs⟩)
    else if c = '\\' then
      match cs with
      | b :: rest =>
        if isBreak b then
          doubleQuoted { r.put [] with gap := [b], escaped := true } ⟨(p.step c).step b, rest⟩
        else
          match escapeAt? (b :: rest) with
          | some (meaning, n) => doubleQuoted (r.put [meaning]) (Input.skip n ⟨p.step c, b :: rest⟩)
          | none => none
      | [] => none
    else doubleQuoted (r.put [c]) ⟨p.step c, cs⟩
termination_by i.rest.length
decreasing_by
  · simp only [List.length_cons]; omega
  · simp only [List.length_cons]; omega
  · have := Input.length_skip_le n ⟨p.step c, b :: rest⟩
    simp only [List.length_cons] at this ⊢
    omega
  · simp only [List.length_cons]; omega

/-! ## Plain scalars -/

/-- The characters that end a plain scalar inside of brackets. -/
def flowIndicators : List Char := [',', '[', ']', '\x7b', '\x7d']

/-- Whether a plain scalar, `inFlow` brackets or not, ends before this text. Inside of brackets a
colon may not be followed by one of their characters. -/
def plainEnds? (inFlow : Bool) : List Char → Option Bool
  | [] => some true
  | c :: cs =>
    if inFlow && c = ':' && cs.head?.any (fun d => d = '?' || flowIndicators.contains d) then none
    else some ((c = ':' && atGap cs) || (inFlow && flowIndicators.contains c))

/-- A plain scalar, which begins at `p`, and the gap after it. Outside of brackets the lines after
its first one are indented by at least `indent`. -/
def plain (inFlow : Bool) (indent : Nat) (r : Reading) (p : Place) :
    List Char → Option (Reading × Input)
  | [] => some (r, ⟨p, []⟩)
  | c :: cs =>
    if isGap c then
      if c = '\t' && p.column < indent && r.gap.any isBreak then none
      else plain inFlow indent (r.addGap c) (p.step c) cs
    else if !r.gap.isEmpty
        && (c = '#' || (p.column = 0 && atMarker (c :: cs))
          || (!inFlow && p.column < indent && r.gap.any isBreak)) then
      some (r, ⟨p, c :: cs⟩)
    else
      match plainEnds? inFlow (c :: cs) with
      | none => none
      | some true => some (r, ⟨p, c :: cs⟩)
      | some false => plain inFlow indent (r.put [c]) (p.step c) cs

/-! ## Block scalars -/

/-- What becomes of the line breaks at the end of a block. -/
inductive Chomping where
  /-- All of them are dropped. -/
  | strip
  /-- The first one is kept. -/
  | clip
  | keep
  deriving DecidableEq, Repr

def chomping? (c : Char) : Option Chomping :=
  if c = '-' then some .strip else if c = '+' then some .keep else none

/-- An indentation that is given in a header. -/
def indentation? (c : Char) : Option Nat := if c.isDigit then some (c.toNat - 48) else none

/-- The chomping and the indentation in a block's header, in either order, and the number of their
characters. The indentation may not be zero. -/
def blockHeader? (cs : List Char) : Option (Chomping × Option Nat × Nat) :=
  let first := cs.head?
  let second := cs.tail.head?
  let header : Chomping × Option Nat × Nat :=
    match first.bind chomping?, first.bind indentation? with
    | some h, _ =>
      match second.bind indentation? with
      | some n => (h, some n, 2)
      | none => (h, none, 1)
    | none, some n =>
      match second.bind chomping? with
      | some h => (h, some n, 2)
      | none => (.clip, some n, 1)
    | none, none => (.clip, none, 0)
  if header.2.1 = some 0 then none else some header

/-- The input behind the rest of a header's line, which holds nothing but blanks and a comment. -/
def afterHeader? (i : Input) : Option Input :=
  let i := i.skipWhile isBlank
  match i.rest with
  | [] => some i
  | c :: _ =>
    if c = '#' then some ((i.skipWhile fun d => !isBreak d).skip 1)
    else if isBreak c then some (i.skip 1)
    else none

/-- Empty lines, which hold spaces up to the indentation: their breaks, the greatest number of
spaces that any of them or the line after them begins with, and the input behind all that. Without
an indentation all spaces count. -/
structure EmptyLines where
  breaks : List Char
  widest : Nat
  next : Input

/-- The empty lines at the head of a text that begins at `p`, after those that are read already. A
tab where the indentation is expected is refused. -/
def emptyLines? (indent : Option Nat) (breaks : List Char) (widest : Nat) (p : Place) :
    List Char → Option EmptyLines
  | [] => some ⟨breaks.reverse, max widest p.column, ⟨p, []⟩⟩
  | c :: cs =>
    if (c = ' ' || c = '\t') && indent.all (p.column < ·) then
      if c = ' ' then emptyLines? indent breaks widest (p.step c) cs else none
    else if isBreak c then
      emptyLines? indent (c :: breaks) (max widest p.column) (p.step c) cs
    else some ⟨breaks.reverse, max widest p.column, ⟨p, c :: cs⟩⟩

theorem length_emptyLines?_le {indent : Option Nat} {breaks cs : List Char} {widest : Nat}
    {p : Place} {found : EmptyLines} (h : emptyLines? indent breaks widest p cs = some found) :
    found.next.rest.length ≤ cs.length := by
  induction cs generalizing breaks widest p with
  | nil =>
    cases h
    simp
  | cons c cs ih =>
    rw [emptyLines?] at h
    rw [List.length_cons]
    split at h
    · split at h
      · exact Nat.le_succ_of_le (ih h)
      · cases h
    · split at h
      · exact Nat.le_succ_of_le (ih h)
      · cases h
        simp

/-- A block while it is read: its text (last character first), the break after its last line, the
empty lines after that, and whether the last line began with a blank. -/
structure BlockReading where
  read : List Char := []
  lastBreak : List Char := []
  breaks : List Char := []
  blankLine : Bool := false

/-- The breaks before a line that begins with a blank or not. In a folded block a line feed
between two lines that begin with none stands for a space, if no empty line stands between
them. -/
def BlockReading.joint (fold : Bool) (blank : Bool) (b : BlockReading) : List Char :=
  if fold && b.lastBreak = ['\n'] && !b.blankLine && !blank then
    if b.breaks.isEmpty then [' '] else b.breaks
  else b.lastBreak ++ b.breaks

/-- The lines of a block with a known indentation. -/
def blockLines (fold : Bool) (indent : Nat) (b : BlockReading) (i : Input) :
    Option (BlockReading × Input) :=
  match _hr : i.rest with
  | [] => some (b, i)
  | c :: cs =>
    if i.place.column ≠ indent then some (b, i)
    else
      let line := (c :: cs).takeWhile fun d => !isBreak d
      let after := Input.afterClass (fun d => !isBreak d) i.place (c :: cs)
      let blank := isBlank c
      let start := after.skip 1
      match _hf : emptyLines? (some indent) [] 0 start.place start.rest with
      | none => none
      | some found =>
        blockLines fold indent
          { read := line.reverse ++ ((b.joint fold blank).reverse ++ b.read)
            lastBreak := after.rest.take 1
            breaks := found.breaks
            blankLine := blank }
          found.next
termination_by i.rest.length
decreasing_by
  have hf := length_emptyLines?_le _hf
  have hs : start.rest.length ≤ after.rest.length - 1 := Input.length_skip_le 1 after
  have ha : after.rest.length ≤ (c :: cs).length := Input.length_afterClass_le _ _ _
  rw [_hr]
  rw [List.length_cons] at ha ⊢
  omega

/-- A block scalar behind its `|` or `>`, `parent` being the column of the collection around
it. -/
def block (fold : Bool) (parent : Option Nat) (i : Input) : Option (String × Input) := do
  let (chomping, given, n) ← blockHeader? i.rest
  let body ← afterHeader? (i.skip n)
  let indent? := given.map (parent.getD 0 + ·)
  let start ← emptyLines? indent? [] 0 body.place body.rest
  let indent := indent?.getD (max start.widest (max (parent.elim 0 (· + 1)) 1))
  let (b, after) ← blockLines fold indent { breaks := start.breaks } start.next
  let tail :=
    match chomping with
    | .strip => []
    | .clip => b.lastBreak
    | .keep => b.lastBreak ++ b.breaks
  return (String.ofList (b.read.reverse ++ tail), after)

end DeclTags.Yaml.Scalar
