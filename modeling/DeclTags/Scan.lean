import DeclTags.Diagnostic
import DeclTags.Lexer
import DeclTags.Recognizer
import DeclTags.SymbolTable

set_option autoImplicit false

/-! # Scanning

One pass over the tokens of a source text. Braces open and close scopes, everything else goes to
the recognizer, and what it decides at a brace or semicolon becomes a symbol or a diagnostic. A
scan of a text never fails; bytes have to spell a text. -/

namespace DeclTags

/-- What a scan finds. -/
structure ScanResult where
  /-- In the order of the places of their names. -/
  symbols : List Symbol := []
  /-- In order of occurrence. -/
  diagnostics : List Diagnostic := []
  stats : ScopeStats := {}
  deriving DecidableEq, Repr, Inhabited

namespace ScanResult

/-- The number of diagnostics that are warnings. -/
def warningCount (r : ScanResult) : Nat := r.diagnostics.countP (·.severity == .warning)

def hasWarnings (r : ScanResult) : Bool := 0 < r.warningCount

def symbolsNamed (r : ScanResult) (name : String) : List Symbol :=
  r.symbols.filter (·.name == name)

def diagnosticsOf (r : ScanResult) (kind : DiagnosticKind) : List Diagnostic :=
  r.diagnostics.filter (·.kind == kind)

end ScanResult

/-- A scan between two tokens. -/
structure Scan where
  recognizer : Recognizer := {}
  tracker : ScopeTracker := {}
  table : SymbolTable := {}
  diagnostics : Array Diagnostic := #[]
  /-- The line on which the input ends, once it is known. -/
  endLine : Nat := 1
  deriving DecidableEq, Repr, Inhabited

namespace Scan

/-! ## The texts of the diagnostics -/

def openCommentMessage : String := "block comment is never closed"

/-- What is said of a literal without its end. -/
def openLiteralMessage (kind : TokenKind) : String :=
  kind.label ++ " literal is not closed before end of line"

def ambiguityMessage (name : String) (reason : CallReason) : String :=
  "'" ++ name ++ "' read as a call, not a declaration: " ++ reason.message

def openScopesMessage (count innermostLine : Nat) : String :=
  "end of input with " ++ toString count ++ " unclosed scope(s); innermost opened at line " ++
    toString innermostLine

def openParenMessage : String := "end of input inside a parenthesized group"

/-! ## One token -/

def report (kind : DiagnosticKind) (line : Nat) (message : String) (s : Scan) : Scan :=
  { s with diagnostics := s.diagnostics.push (.ofKind kind line message) }

/-- Hands the token to the recognizer. -/
def observe (g : Grammar) (t : Token) (s : Scan) : Scan :=
  { s with recognizer := s.recognizer.observe g t }

/-- Records a declaration or an ambiguity; other decisions leave no trace in the result. -/
def record (decision : Decision) (s : Scan) : Scan :=
  match decision with
  | .declaration symbol | .type _ (some symbol) => { s with table := s.table.append symbol }
  | .ambiguous name line reason => s.report .ambiguity line (ambiguityMessage name reason)
  | _ => s

/-- What a decision makes of its brace, `next` being the index of the next symbol. -/
def openerOf (next : Nat) : Decision → Opener
  | .declaration symbol => .declaration symbol.name next
  | .type name symbol => .type name (symbol.map fun _ => next)
  | .anonymousClass => .anonymousClass
  | .controlBlock => .controlBlock
  | .unknown | .ambiguous _ _ _ => .unknown

/-- Opens a scope. -/
def openScope (g : Grammar) (source : String) (brace : Token) (s : Scan) : Scan :=
  let (decision, recognizer) := s.recognizer.openBrace g source s.tracker
  let tracker := s.tracker.push (openerOf s.table.size decision) brace.line brace.start
  { s.record decision with recognizer, tracker }

/-- Closes the innermost scope; a brace without a scope is reported. -/
def closeScope (brace : Token) (s : Scan) : Scan :=
  match s.tracker.pop? with
  | some (scope, tracker) =>
    { s with tracker, recognizer := s.recognizer.closeBrace (some scope.depth) }
  | none =>
    let recognizer := s.recognizer.closeBrace none
    { s.report .unbalancedBraces brace.line (unmatchedMessage brace.line) with recognizer }

/-- Ends a member or a statement. -/
def semicolon (g : Grammar) (source : String) (t : Token) (s : Scan) : Scan :=
  let (decision, recognizer) := s.recognizer.semicolon g source s.tracker t
  { decision.elim s (s.record ·) with recognizer }

/-- The scan after one more token. -/
def feed (g : Grammar) (source : String) (s : Scan) (t : Token) : Scan :=
  match t.kind with
  | .punctuation '{' => s.openScope g source t
  | .punctuation '}' => s.closeScope t
  | .punctuation ';' => s.semicolon g source t
  | .endOfInput => { s with endLine := t.line }
  | .blockComment =>
    if t.terminated then s.observe g t
    else (s.report .unterminatedComment t.line openCommentMessage).observe g t
  | .stringLiteral | .charLiteral =>
    if t.terminated then s.observe g t
    else (s.report .unterminatedString t.line (openLiteralMessage t.kind)).observe g t
  | _ => s.observe g t

/-! ## The end of the input -/

/-- Reports open scopes, or else an open parenthesis, and closes what is open. -/
def finish (s : Scan) : Scan :=
  match s.tracker.current? with
  | some innermost =>
    { s.report .unbalancedBraces s.endLine
        (openScopesMessage s.tracker.depth innermost.line) with
      tracker := s.tracker.closeAll }
  | none =>
    if s.recognizer.inParenGroup then s.report .unexpectedEnd s.endLine openParenMessage else s

/-- What was found so far. -/
def result (s : Scan) : ScanResult := ⟨s.table.toList, s.diagnostics.toList, s.tracker.stats⟩

end Scan

/-- Scans a source text. -/
def scan (g : Grammar) (source : List Char) : ScanResult :=
  let text := String.ofList source
  ((Lexer.ofSource source).fold g (Scan.feed g text) {}).finish.result

/-- A scan feeds the tokens of the source one after another. -/
theorem scan_eq (g : Grammar) (source : List Char) :
    scan g source =
      ((tokensOf g source).foldl (Scan.feed g (String.ofList source)) {}).finish.result := by
  rw [scan, Lexer.fold_eq_foldl, tokensOf]

/-- Bytes that are no text: the first `validUpTo` of them are. -/
structure EncodingError where
  validUpTo : Nat
  deriving DecidableEq, Repr

def EncodingError.message (e : EncodingError) : String :=
  "source is not valid UTF-8 (valid up to byte " ++ toString e.validUpTo ++ ")"

/-- Scans the bytes of a source text. -/
def scanBytes (g : Grammar) (bytes : List UInt8) : Except EncodingError ScanResult :=
  match Text.decode bytes with
  | .ok source => .ok (scan g source)
  | .error offset => .error ⟨offset⟩

end DeclTags
