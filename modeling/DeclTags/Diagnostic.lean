set_option autoImplicit false

/-! # Diagnostics

What a scan has to say about its input besides the symbols. A scan recovers from all of it. -/

namespace DeclTags

inductive Severity where
  | warning
  | info
  deriving DecidableEq, Repr, Inhabited

namespace Severity

def name : Severity → String
  | .warning => "warning"
  | .info => "info"

def ofName? (s : String) : Option Severity := [Severity.warning, .info].find? (·.name == s)

end Severity

/-- What is wrong or doubtful. -/
inductive DiagnosticKind where
  | unterminatedComment
  | unterminatedString
  | unbalancedBraces
  | unexpectedEnd
  /-- A run of tokens could be a call or a declaration, and was taken for a call. -/
  | ambiguity
  deriving DecidableEq, Repr, Inhabited

namespace DiagnosticKind

def name : DiagnosticKind → String
  | .unterminatedComment => "unterminated_comment"
  | .unterminatedString => "unterminated_string"
  | .unbalancedBraces => "unbalanced_braces"
  | .unexpectedEnd => "unexpected_eof"
  | .ambiguity => "recognition_ambiguity"

/-- Every kind. -/
def all : List DiagnosticKind :=
  [.unterminatedComment, .unterminatedString, .unbalancedBraces, .unexpectedEnd, .ambiguity]

def ofName? (s : String) : Option DiagnosticKind := all.find? (·.name == s)

theorem ofName?_name (kind : DiagnosticKind) : ofName? kind.name = some kind := by
  cases kind <;> decide

/-- An ambiguity is a note; all else means malformed input. -/
def severity : DiagnosticKind → Severity
  | .ambiguity => .info
  | _ => .warning

/-- Whether the kind is about the nesting of braces and parentheses. -/
def isStructural : DiagnosticKind → Bool
  | .unbalancedBraces | .unexpectedEnd => true
  | _ => false

end DiagnosticKind

structure Diagnostic where
  kind : DiagnosticKind
  message : String
  line : Nat
  severity : Severity
  deriving DecidableEq, Repr, Inhabited

namespace Diagnostic

/-- A diagnostic with the severity of its kind. -/
def ofKind (kind : DiagnosticKind) (line : Nat) (message : String) : Diagnostic :=
  ⟨kind, message, line, kind.severity⟩

/-- The diagnostic on one line. -/
def shown (d : Diagnostic) : String :=
  toString d.line ++ ": " ++ d.severity.name ++ " [" ++ d.kind.name ++ "] " ++ d.message

end Diagnostic

end DeclTags
