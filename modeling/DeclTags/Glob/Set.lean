import DeclTags.Glob.Expression
import DeclTags.Glob.Match

set_option autoImplicit false

/-! # Sets of patterns

A set matches what one of its patterns matches. Some patterns are compared as texts, one that ends
with an extension has an expression of its own, and the expressions of all others are read
together. A pattern that is nested too deeply is named by its expression, or by its index among
those that are read together. -/

namespace DeclTags

/-- Why patterns are no set. -/
inductive GlobSetFault where
  | unreadable (pattern : String) (fault : GlobFault)
  /-- An expression of its own is nested too deeply. -/
  | deepExpression (expression : String)
  /-- Of the expressions that are read together the one at this index is nested too deeply. -/
  | deepMember (index : Nat)
  deriving DecidableEq, Repr

namespace GlobSetFault

/-- What is said of the expression at an index of those that are read together. -/
def depthMessage (index : Nat) : String := "error parsing pattern " ++ toString index

/-- What is said of a pattern or an expression that cannot be read. -/
def patternMessage (pattern reason : String) : String :=
  "error parsing glob '" ++ pattern ++ "': " ++ reason

def message : GlobSetFault → String
  | .unreadable pattern fault => patternMessage pattern fault.message
  | .deepExpression expression => patternMessage expression (depthMessage 0)
  | .deepMember index => depthMessage index

end GlobSetFault

namespace Glob

/-! ## Kinds of patterns -/

/-- How a pattern is matched in a set. -/
inductive Kind where
  /-- By comparing the begin or the end of a path, or all of it, with a text. -/
  | text
  /-- By an expression of its own, for it ends with an extension. -/
  | extension
  /-- By an expression that is read together with others. -/
  | general
  deriving DecidableEq, Repr

def isLiteral : GlobToken → Bool
  | .literal _ => true
  | _ => false

/-- Whether the tokens are a text that is not empty. -/
def areText (tokens : List GlobToken) : Bool := !tokens.isEmpty && tokens.all isLiteral

/-- Whether the tokens are a lone slash. -/
def areSlash : List GlobToken → Bool
  | [.literal c] => c = '/'
  | _ => false

/-- Whether the tokens are compared with the end of a path, or with all of it. -/
def isEndText : List GlobToken → Bool
  | .leadingParts :: .anyRun :: rest | .anyRun :: rest => areText rest && !areSlash rest
  | .leadingParts :: rest => areText rest
  | tokens => areText tokens

/-- Whether the reversed tokens are compared with the begin of a path. -/
def isStartText : List GlobToken → Bool
  | .anyRun :: before => areText before
  | .trailingParts :: before => before.all isLiteral
  | _ => false

/-- Whether the reversed tokens begin with the letters of an extension and its point. -/
def hasExtension : List GlobToken → Bool
  | .literal c :: before => c = '.' || (c ≠ '/' && hasExtension before)
  | _ => false

def kind (g : Glob) : Kind :=
  if isEndText g.tokens || isStartText g.tokens.reverse then .text
  else if hasExtension g.tokens.reverse then .extension
  else .general

end Glob

/-- Patterns of which at least one has to match. -/
structure GlobSet where
  globs : List Glob := []
  deriving Repr, Inhabited

namespace GlobSet

/-- The first pattern that is nested too deeply, those with an expression of their own coming
first. -/
def fault? (globs : List Glob) : Option GlobSetFault :=
  match globs.find? fun g => g.kind = .extension && g.isTooDeep with
  | some g => some (.deepExpression g.expression)
  | none =>
    ((globs.filter fun g => g.kind = .general).findIdx? Glob.isTooDeep).map .deepMember

/-- The set of the patterns that some texts are. -/
def parse (patterns : List String) : Except GlobSetFault GlobSet := do
  let globs ← patterns.mapM fun pattern =>
    (Glob.parse pattern).mapError (.unreadable pattern ·)
  match fault? globs with
  | some fault => throw fault
  | none => return ⟨globs⟩

/-- Whether one of the patterns matches the whole path. -/
def isMatch (s : GlobSet) (path : String) : Bool := s.globs.any (·.isMatch path)

end GlobSet

end DeclTags
