import DeclTags.Grammar
import DeclTags.Token

set_option autoImplicit false

/-! # Lexing

Comments and literals are taken whole, so that a brace inside them is never seen as structure. A
literal or comment without its end is a token like any other, marked as not terminated: lexing
never fails.

`Lexeme.atHead` says what stands at the head of a text, and is a function of that text alone.
`Lexer.next?` puts a lexeme in its place, `Lexer.tokens` is the whole stream, and `Lexer.fold` goes
over it without keeping it. -/

namespace DeclTags

/-! ## Places in the source -/

/-- A place in the source: the bytes before it, its line and its column. -/
structure Cursor where
  offset : Nat := 0
  line : Nat := 1
  column : Nat := 1
  deriving DecidableEq, Repr, Inhabited

namespace Cursor

/-- The place after one more character. -/
def step (p : Cursor) (c : Char) : Cursor :=
  if c = '\n' then ⟨p.offset + c.utf8Size, p.line + 1, 1⟩
  else ⟨p.offset + c.utf8Size, p.line, p.column + 1⟩

/-- The place after a piece of text. -/
def advance (p : Cursor) (cs : List Char) : Cursor := cs.foldl step p

end Cursor

/-! ## What stands at the head of a text -/

/-- A token without its place: a kind and a number of characters. -/
structure Lexeme where
  kind : TokenKind
  size : Nat
  terminated : Bool := true
  deriving DecidableEq, Repr, Inhabited

namespace Lexeme

/-- The size of the first `n` characters without a carriage return at their end. -/
def sizeBeforeReturn (n : Nat) (cs : List Char) : Nat :=
  if (cs.take n).getLast? = some '\r' then n - 1 else n

/-- A line comment reaches to the end of its line. -/
def lineComment (cs : List Char) : Lexeme :=
  ⟨.lineComment, sizeBeforeReturn (cs.takeWhile (· ≠ '\n')).length cs, true⟩

/-- A block comment reaches to the first closing marker after its opening one. -/
def blockComment (opening closing : String) (cs : List Char) : Lexeme :=
  match Text.find? closing.toList (cs.drop opening.length) with
  | some n => ⟨.blockComment, opening.length + n + closing.length, true⟩
  | none => ⟨.blockComment, cs.length, false⟩

/-- How the body of a quoted literal ends. -/
inductive BodyEnd where
  | delimiter
  | line
  | input
  deriving DecidableEq, Repr

/-- The size of a quoted literal's body, counted from `n` and with its closing delimiter, and how
it ends. A backslash takes the character after it along, whatever that is. -/
def quotedBody (delimiter : Char) (n : Nat) : List Char → Nat × BodyEnd
  | [] => (n, .input)
  | ['\\'] => (n + 1, .input)
  | '\\' :: _ :: cs => quotedBody delimiter (n + 2) cs
  | c :: cs =>
    if c = '\n' then (n, .line)
    else if c = delimiter then (n + 1, .delimiter)
    else quotedBody delimiter (n + 1) cs

/-- A literal from its opening delimiter to the next one on the same line. -/
def quoted (kind : TokenKind) (delimiter : Char) (cs : List Char) : Lexeme :=
  match quotedBody delimiter 1 (cs.drop 1) with
  | (n, .delimiter) => ⟨kind, n, true⟩
  | (n, .line) => ⟨kind, sizeBeforeReturn n cs, false⟩
  | (n, .input) => ⟨kind, n, false⟩

/-- The size of a verbatim literal's body, counted from `n` and with its closing delimiter, and
whether it is closed. A doubled delimiter belongs to the body. -/
def verbatimBody (delimiter : Char) (n : Nat) : List Char → Nat × Bool
  | [] => (n, false)
  | [c] => (n + 1, c = delimiter)
  | c :: d :: cs =>
    if c ≠ delimiter then verbatimBody delimiter (n + 1) (d :: cs)
    else if d = delimiter then verbatimBody delimiter (n + 2) cs
    else (n + 1, true)

/-- A verbatim literal: a prefix of `n` characters, a delimiter and a body, possibly over several
lines. -/
def verbatim (n : Nat) (cs : List Char) : Lexeme :=
  match cs.drop n with
  | [] => ⟨.stringLiteral, cs.length, false⟩
  | delimiter :: body =>
    let (size, terminated) := verbatimBody delimiter (n + 1) body
    ⟨.stringLiteral, size, terminated⟩

/-- White space up to the end of the line; a carriage return before a line feed belongs to the
line end. -/
def blank (cs : List Char) : Lexeme :=
  let n := (cs.takeWhile fun c => Text.isBlank c && c ≠ '\n').length
  ⟨.blank, if (cs.drop n).head? = some '\n' then sizeBeforeReturn n cs else n, true⟩

/-- The characters a word may begin with. -/
def isWordStart (c : Char) : Bool := Text.isAlphabetic c || c = '_' || c = '$'

/-- The characters of a word. -/
def isWordChar (c : Char) : Bool := Text.isAlphanumeric c || c = '_' || c = '$'

/-- The characters of a number after its first digit. -/
def isNumberChar (c : Char) : Bool := Text.isAlphanumeric c || c = '_' || c = '.'

/-- A word is a keyword if the grammar reserves it. -/
def word (g : Grammar) (cs : List Char) : Lexeme :=
  let letters := cs.takeWhile isWordChar
  ⟨if g.isKeyword (String.ofList letters) then .keyword else .identifier, letters.length, true⟩

/-- A run of digits, letters, underscores and points. -/
def number (cs : List Char) : Lexeme := ⟨.number, (cs.takeWhile isNumberChar).length, true⟩

/-- Whether the text begins with the marker. -/
def startsWith (cs : List Char) (marker : String) : Bool := marker.toList.isPrefixOf cs

/-- What stands at the head of a text: line ends first, then comments, white space, literals,
words and numbers, and a single character if it is nothing else. -/
def atHead (g : Grammar) : List Char → Lexeme
  | [] => ⟨.endOfInput, 0, true⟩
  | c :: rest =>
    let cs := c :: rest
    if c = '\n' then ⟨.newline, 1, true⟩
    else if c = '\r' ∧ rest.head? = some '\n' then ⟨.newline, 2, true⟩
    else if g.lineComment.any (startsWith cs) then lineComment cs
    else if let some (opening, closing) := g.blockComment.filter (startsWith cs ·.1) then
      blockComment opening closing cs
    else if Text.isBlank c then blank cs
    else if let some marker := g.verbatimPrefix? cs then verbatim marker.length cs
    else if g.isStringDelimiter c then quoted .stringLiteral c cs
    else if g.isCharDelimiter c then quoted .charLiteral c cs
    else if isWordStart c then word g cs
    else if c.isDigit then number cs
    else ⟨.punctuation c, 1, true⟩

end Lexeme

/-! ## The stream of tokens -/

/-- A lexer between two tokens. -/
structure Lexer where
  cursor : Cursor := {}
  /-- The text not yet lexed. -/
  rest : List Char
  /-- Whether the end of input was reported. -/
  finished : Bool := false
  deriving DecidableEq, Repr

namespace Lexer

/-- A lexer at the beginning of the source. -/
def ofSource (source : List Char) : Lexer := { rest := source }

/-- A lexer at the last place of the text that is not after the byte `offset`, the text beginning
at `p`. -/
def seek (offset : Nat) (p : Cursor) : List Char → Lexer
  | [] => ⟨p, [], false⟩
  | c :: cs =>
    if p.offset + c.utf8Size ≤ offset then seek offset (p.step c) cs else ⟨p, c :: cs, false⟩

/-- A lexer that resumes at a byte offset, moved back to where a character begins. -/
def startingAt (source : List Char) (offset : Nat) : Lexer := seek offset {} source

/-- The next token and the lexer after it, until the end of input was reported. -/
def next? (g : Grammar) (l : Lexer) : Option (Token × Lexer) :=
  if l.finished then none
  else
    let lexeme := Lexeme.atHead g l.rest
    let text := l.rest.take lexeme.size
    let after := l.cursor.advance text
    some
      ({ kind := lexeme.kind, text := String.ofList text, start := l.cursor.offset,
         stop := after.offset, line := l.cursor.line, column := l.cursor.column,
         terminated := lexeme.terminated },
       ⟨after, l.rest.drop lexeme.size, lexeme.kind == .endOfInput⟩)

/-- At most `n` more tokens after those of `read` (last first), and the lexer after them. -/
def takeOnto (g : Grammar) (read : List Token) : Nat → Lexer → List Token × Lexer
  | 0, l => (read.reverse, l)
  | n + 1, l =>
    match l.next? g with
    | none => (read.reverse, l)
    | some (t, after) => takeOnto g (t :: read) n after

/-- At most `n` tokens, and the lexer after them. -/
def take (g : Grammar) (n : Nat) (l : Lexer) : List Token × Lexer := takeOnto g [] n l

/-- Whether `after` is further on than `l`: behind more text, or behind the end of the input. -/
def isBefore (l after : Lexer) : Bool :=
  l.cursor.offset < after.cursor.offset || after.finished

/-- How much there is left to do. -/
def remaining (l : Lexer) : Nat := l.rest.length + if l.finished then 0 else 1

theorem finished_of_next? {g : Grammar} {l after : Lexer} {t : Token}
    (h : l.next? g = some (t, after)) : l.finished = false := by
  unfold next? at h
  split at h
  · cases h
  · next hf => simpa using hf

/-- A lexer that gets on has less to do. -/
theorem remaining_lt {g : Grammar} {l after : Lexer} {t : Token}
    (h : l.next? g = some (t, after)) (hb : l.isBefore after = true) :
    after.remaining < l.remaining := by
  have hf := finished_of_next? h
  simp only [next?, hf, Bool.false_eq_true, if_false, Option.some.injEq, Prod.mk.injEq] at h
  obtain ⟨-, rfl⟩ := h
  simp only [isBefore, Bool.or_eq_true, decide_eq_true_eq] at hb
  simp only [remaining, hf, Bool.false_eq_true, if_false, List.length_drop]
  rcases hb with hb | hb
  · have hpos : 0 < (l.rest.take (Lexeme.atHead g l.rest).size).length := by
      rw [List.length_pos_iff]
      intro hnil
      rw [hnil] at hb
      exact Nat.lt_irrefl _ hb
    rw [List.length_take] at hpos
    split <;> omega
  · rw [if_pos hb]
    omega

/-- Folds `f` over the tokens, the end of input included. A lexer that does not get on, because a
line comment marker is a lone carriage return at the end of the text, stops there. -/
def fold {α : Type} (g : Grammar) (f : α → Token → α) (a : α) (l : Lexer) : α :=
  match _h : l.next? g with
  | none => a
  | some (t, after) =>
    if _hb : l.isBefore after = true then fold g f (f a t) after else f a t
termination_by l.remaining
decreasing_by exact remaining_lt _h _hb

/-- All tokens, the end of input included. -/
def tokens (g : Grammar) (l : Lexer) : List Token :=
  (l.fold g (fun read t => t :: read) []).reverse

/-- The fold starts over at every token. -/
theorem fold_eq {α : Type} (g : Grammar) (f : α → Token → α) (a : α) (l : Lexer) :
    l.fold g f a =
      match l.next? g with
      | none => a
      | some (t, after) => if l.isBefore after then after.fold g f (f a t) else f a t := by
  rw [fold]
  split
  · next h => rw [h]
  · next t after h => rw [h]; simp only [dite_eq_ite]

/-- What is read onto `read` stands in front of it. -/
theorem fold_cons (g : Grammar) (read : List Token) (l : Lexer) :
    l.fold g (fun read t => t :: read) read =
      l.fold g (fun read t => t :: read) [] ++ read := by
  induction h : l.remaining using Nat.strongRecOn generalizing l read with
  | ind n ih =>
    subst h
    rw [fold_eq g _ read l, fold_eq g _ [] l]
    split
    · rfl
    · next t after hn =>
      split
      · next hb =>
        have hlt := remaining_lt hn hb
        rw [ih _ hlt (t :: read) after rfl, ih _ hlt [t] after rfl, List.append_assoc,
          List.singleton_append]
      · rfl

/-- The tokens are the next one and those after it. -/
theorem tokens_eq (g : Grammar) (l : Lexer) :
    l.tokens g =
      match l.next? g with
      | none => []
      | some (t, after) => if l.isBefore after then t :: after.tokens g else [t] := by
  unfold tokens
  rw [fold_eq]
  split
  · rfl
  · next t after _ =>
    split
    · rw [fold_cons g [t] after, List.reverse_append]
      rfl
    · rfl

/-- A fold over the lexer is a fold over its tokens. -/
theorem fold_eq_foldl {α : Type} (g : Grammar) (f : α → Token → α) (a : α) (l : Lexer) :
    l.fold g f a = (l.tokens g).foldl f a := by
  induction h : l.remaining using Nat.strongRecOn generalizing l a with
  | ind n ih =>
    subst h
    rw [fold_eq, tokens_eq]
    split
    · rfl
    · next t after hn =>
      split
      · next hb => rw [ih _ (remaining_lt hn hb) (f a t) after rfl, List.foldl_cons]
      · rfl

end Lexer

/-- The tokens of a source text, the end of input included. -/
def tokensOf (g : Grammar) (source : List Char) : List Token :=
  (Lexer.ofSource source).tokens g

end DeclTags
