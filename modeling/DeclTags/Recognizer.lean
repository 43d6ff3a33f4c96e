import DeclTags.Candidate.Header
import DeclTags.Scope

set_option autoImplicit false

/-! # Recognition

The recognizer keeps the significant tokens since the last `;`, `{` or `}`, its candidate, and
decides at a `{` what the brace opens:

* `leading <T> type name<T> ( parameters ) clause {` a method,
* `leading Name ( parameters ) chain {` inside of the type `Name` a constructor,
* `leading class Name … {` a type,
* `… new a.b.Name<T> ( arguments ) {` an anonymous class,
* `if … {` and its like a control block,

and anything else an unknown scope. At a `;` directly inside of a type the first two shapes are
tried once more, for members without a body, with a default value or with an expression body.

A candidate that is interrupted by a `{` inside of its parentheses is suspended, and taken up again
when the scope of that brace is closed. -/

namespace DeclTags

/-- What a brace opens, or what ends at a semicolon. -/
inductive Decision where
  | declaration (symbol : Symbol)
  /-- A type; it has a symbol only where types are reported. -/
  | type (name : String) (symbol : Option Symbol)
  | anonymousClass
  | controlBlock
  | unknown
  /-- It could be a declaration or a call, and was taken for a call. -/
  | ambiguous (name : String) (line : Nat) (reason : CallReason)
  deriving DecidableEq, Repr

/-- The tokens since the last boundary. -/
structure Candidate where
  /-- The tokens, last first. -/
  back : List Token := []
  /-- The number of tokens. -/
  size : Nat := 0
  /-- The number of open parentheses. -/
  parenDepth : Nat := 0
  /-- The block comment before the first token. -/
  doc : Option String := none
  /-- Whether there were more tokens than the grammar allows; only the first of them are kept. -/
  overflowed : Bool := false
  deriving DecidableEq, Repr, Inhabited

namespace Candidate

/-- The tokens in order. -/
def tokens (c : Candidate) : List Token := c.back.reverse

def isEmpty (c : Candidate) : Bool := c.back.isEmpty

/-- The number of open parentheses after one more token. A `)` with none open changes nothing. -/
def depthAfter (depth : Nat) (t : Token) : Nat :=
  if t.isPunct '(' then depth + 1 else if t.isPunct ')' then depth - 1 else depth

/-- The candidate with one more token, if it has fewer than `limit`. -/
def add (limit : Nat) (t : Token) (c : Candidate) : Candidate :=
  let c := { c with parenDepth := depthAfter c.parenDepth t }
  if c.size < limit then { c with back := t :: c.back, size := c.size + 1 }
  else { c with overflowed := true }

/-- The candidate, its tokens being `run`, as a type's header decides it. -/
def typeDecision? (g : Grammar) (source : String) (tracker : ScopeTracker) (run : List Token)
    (c : Candidate) : Option Decision :=
  (TypeHeader.ofRun? g run).map fun h =>
    let symbol : Symbol := {
      name := h.name.text
      kind := .type
      modifiers := h.modifiers
      parameterText := h.componentText source
      startLine := (run.head?.map Token.line).getD h.name.line
      span := .ofToken h.name
      path := tracker.path
      docComment := c.doc }
    .type h.name.text (if g.emitTypeSymbols then some symbol else none)

/-- The candidate cut down to `run` as a callable's header decides it. -/
def callableDecision (g : Grammar) (source : String) (tracker : ScopeTracker) (withBody : Bool)
    (run : List Token) (c : Candidate) : Decision :=
  match CallableHeader.ofRun? g withBody run with
  | none => .unknown
  | some h =>
    match h.kind? g tracker.enclosingType? withBody with
    | none => .unknown
    | some kind =>
      match h.callReason? g with
      | some reason => .ambiguous h.name.text h.name.line reason
      | none =>
        .declaration {
          name := h.name.text
          kind := kind
          modifiers := h.modifiers
          parameterText := groupText source h.group
          startLine := (run.head?.map Token.line).getD h.name.line
          span := .ofToken h.name
          path := tracker.path
          docComment := c.doc }

/-- What a brace after the candidate opens. -/
def atBrace (g : Grammar) (source : String) (tracker : ScopeTracker) (c : Candidate) :
    Decision :=
  if c.overflowed || c.isEmpty then .unknown
  else if endsWithConstruction g c.back then .anonymousClass
  else if 0 < c.parenDepth then .unknown
  else
    let run := c.tokens
    if startsWithControl g run then .controlBlock
    else (c.typeDecision? g source tracker run).getD (c.callableDecision g source tracker true run)

/-- The part of the candidate that a semicolon judges, and whether it has a body: an expression
body is one, a default value is none. -/
def member (g : Grammar) (c : Candidate) : List Token × Bool :=
  let run := c.tokens
  match memberTail? g run with
  | some (before, .expressionBody) => (before, true)
  | some (before, .defaultValue) => (before, false)
  | none => (run, false)

/-- Whether a semicolon after the candidate may end a member. -/
def mayBeMember (g : Grammar) (tracker : ScopeTracker) (c : Candidate) : Bool :=
  g.bodylessDeclarations && tracker.directlyInType && !c.overflowed && !c.isEmpty

/-- The member that a semicolon after the candidate ends, if it ends one. -/
def atSemicolon? (g : Grammar) (source : String) (tracker : ScopeTracker) (c : Candidate) :
    Option Decision :=
  if c.mayBeMember g tracker then
    let (run, withBody) := c.member g
    match c.callableDecision g source tracker withBody run with
    | .declaration symbol => some (.declaration symbol)
    | .ambiguous name line reason => some (.ambiguous name line reason)
    | _ => none
  else none

end Candidate

/-- A candidate that waits for the scope of depth `depth` to be closed. -/
structure Suspended where
  depth : Nat
  candidate : Candidate
  deriving DecidableEq, Repr, Inhabited

/-- What a recognizer is about. -/
inductive RecognizerState where
  /-- At a boundary, with no candidate. -/
  | idle
  | accumulating
  /-- Inside of one or more parentheses. -/
  | awaitingParenClose
  deriving DecidableEq, Repr, Inhabited

structure Recognizer where
  candidate : Candidate := {}
  /-- The last block comment since the boundary. -/
  pendingDoc : Option String := none
  /-- Innermost first. -/
  suspended : List Suspended := []
  deriving DecidableEq, Repr, Inhabited

namespace Recognizer

/-- Whether a parenthesis is open. -/
def inParenGroup (r : Recognizer) : Bool := 0 < r.candidate.parenDepth

def state (r : Recognizer) : RecognizerState :=
  if r.candidate.isEmpty && !r.candidate.overflowed then .idle
  else if r.inParenGroup then .awaitingParenClose
  else .accumulating

/-- One more token of the candidate. The first one takes the pending comment. -/
def extend (g : Grammar) (t : Token) (r : Recognizer) : Recognizer :=
  if r.candidate.isEmpty then
    { r with
      candidate := { r.candidate with doc := r.pendingDoc }.add g.maxCandidateTokens t
      pendingDoc := none }
  else { r with candidate := r.candidate.add g.maxCandidateTokens t }

/-- Takes note of a token other than `{`, `}` and `;`. -/
def observe (g : Grammar) (t : Token) (r : Recognizer) : Recognizer :=
  match t.kind with
  | .blank | .newline | .lineComment | .endOfInput => r
  | .blockComment =>
    if r.candidate.isEmpty then { r with pendingDoc := some t.text } else r
  | _ => r.extend g t

/-- The recognizer at a boundary, with the candidates that are suspended. -/
def boundary (suspended : List Suspended) : Recognizer := { suspended }

/-- Decides what the brace opens that is about to be pushed on `tracker`. -/
def openBrace (g : Grammar) (source : String) (tracker : ScopeTracker) (r : Recognizer) :
    Decision × Recognizer :=
  (r.candidate.atBrace g source tracker,
    boundary
      (if r.inParenGroup then ⟨tracker.depth, r.candidate⟩ :: r.suspended else r.suspended))

/-- Takes note of a closing brace, `closed` being the depth of the scope that it closes. -/
def closeBrace (closed : Option Nat) (r : Recognizer) : Recognizer :=
  match closed with
  | none => boundary r.suspended
  | some depth =>
    match r.suspended.dropWhile fun s => depth < s.depth with
    | [] => boundary []
    | s :: outer =>
      if s.depth = depth then { boundary outer with candidate := s.candidate }
      else boundary (s :: outer)

/-- Takes note of a semicolon, and decides on the member that it ends, if it ends one. -/
def semicolon (g : Grammar) (source : String) (tracker : ScopeTracker) (t : Token)
    (r : Recognizer) : Option Decision × Recognizer :=
  if r.inParenGroup then (none, r.observe g t)
  else (r.candidate.atSemicolon? g source tracker, boundary r.suspended)

end Recognizer

end DeclTags
