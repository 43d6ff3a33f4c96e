import DeclTags.Symbol

set_option autoImplicit false

/-! # Scopes

Every open brace is a scope. The tracker holds the open scopes and counts what was opened and
closed; closing with no scope open is the one thing that can fail. -/

namespace DeclTags

/-- What opened a scope. Numbers are positions in the list of symbols. -/
inductive Opener where
  /-- The body of a method or constructor. -/
  | declaration (name : String) (symbol : Nat)
  /-- The body of a type; it has a symbol only where types are reported. -/
  | type (name : String) (symbol : Option Nat)
  | anonymousClass
  | controlBlock
  /-- Initializers, lambdas, plain blocks. -/
  | unknown
  deriving DecidableEq, Repr, Inhabited

namespace Opener

/-- The part of the path of what is declared inside. -/
def segment? : Opener → Option String
  | .declaration name _ | .type name _ => some name
  | .anonymousClass => some anonymousSegment
  | .controlBlock | .unknown => none

/-- Bodies of named types and of anonymous classes. -/
def isClassLike : Opener → Bool
  | .type _ _ | .anonymousClass => true
  | _ => false

end Opener

/-- An open brace. -/
structure Scope where
  /-- The number of scopes around it. -/
  depth : Nat
  opener : Opener
  /-- The line of the brace. -/
  line : Nat
  /-- The offset of the brace. -/
  offset : Nat
  deriving DecidableEq, Repr, Inhabited

/-- How many scopes were opened and closed. -/
structure ScopeStats where
  pushed : Nat := 0
  popped : Nat := 0
  /-- Closed because the input ended. -/
  forceClosed : Nat := 0
  maxDepth : Nat := 0
  deriving DecidableEq, Repr, Inhabited

/-- The open scopes, innermost first, and the counts so far. -/
structure ScopeTracker where
  scopes : List Scope := []
  stats : ScopeStats := {}
  deriving DecidableEq, Repr, Inhabited

/-- What is said of a closing brace on line `line` when no scope is open. -/
def unmatchedMessage (line : Nat) : String :=
  "unmatched closing brace at line " ++ toString line

namespace ScopeTracker

/-- The number of open scopes: those around the innermost one, and itself. -/
def depth (t : ScopeTracker) : Nat :=
  match t.scopes with
  | [] => 0
  | scope :: _ => scope.depth + 1

/-- Opens a scope at the brace on line `line`. -/
def push (t : ScopeTracker) (opener : Opener) (line offset : Nat) : ScopeTracker where
  scopes := ⟨t.depth, opener, line, offset⟩ :: t.scopes
  stats := { t.stats with
    pushed := t.stats.pushed + 1
    maxDepth := max t.stats.maxDepth (t.depth + 1) }

/-- Closes the innermost scope, if there is one. -/
def pop? (t : ScopeTracker) : Option (Scope × ScopeTracker) :=
  match t.scopes with
  | [] => none
  | scope :: rest =>
    some (scope, ⟨rest, { t.stats with popped := t.stats.popped + 1 }⟩)

/-- Closes every open scope. What it closes is `t.scopes`, innermost first. -/
def closeAll (t : ScopeTracker) : ScopeTracker :=
  ⟨[], { t.stats with forceClosed := t.stats.forceClosed + t.depth }⟩

/-- The innermost scope. -/
def current? (t : ScopeTracker) : Option Scope := t.scopes.head?

/-- The names of the scopes that have one, outermost first. -/
def path (t : ScopeTracker) : List String := t.scopes.reverse.filterMap (·.opener.segment?)

/-- The name of the innermost class-like scope, if it is a named type. -/
def enclosingType? (t : ScopeTracker) : Option String :=
  match (t.scopes.find? (·.opener.isClassLike)).map Scope.opener with
  | some (.type name _) => some name
  | _ => none

/-- Whether the innermost scope is the body of a named type. -/
def directlyInType (t : ScopeTracker) : Bool :=
  match t.current?.map Scope.opener with
  | some (.type _ _) => true
  | _ => false

end ScopeTracker

end DeclTags
