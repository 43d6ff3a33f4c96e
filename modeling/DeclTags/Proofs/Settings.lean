import DeclTags.Proofs.Feed
import DeclTags.Proofs.Streams

set_option autoImplicit false

/-! # Settings of a grammar

Two fields of a grammar say nothing about its language: whether types are reported, and how many
tokens a candidate may have. Neither is read by the lexer (`tokensOf_withSettings`), nor by the
headers and the decisions on callables. What a `{` opens is read with the first of them, and the
recognizer keeps tokens with the second.
-/

namespace DeclTags

/-- The grammar with other settings. -/
def Grammar.withSettings (g : Grammar) (emit : Bool) (limit : Nat) : Grammar :=
  { g with emitTypeSymbols := emit, maxCandidateTokens := limit }

variable (g : Grammar) (emit : Bool) (limit : Nat)

/-! ## The lexer does not read them -/

@[simp] theorem Lexeme.atHead_withSettings (cs : List Char) :
    atHead (g.withSettings emit limit) cs = atHead g cs := by
  cases cs <;> rfl

@[simp] theorem tokensOf_withSettings (source : List Char) :
    tokensOf (g.withSettings emit limit) source = tokensOf g source :=
  Lexer.tokens_congr (Lexeme.atHead_withSettings g emit limit) (Lexer.ofSource source)

/-! ## Headers do not read them -/

theorem endsWithConstruction_withSettings (back : List Token) :
    endsWithConstruction (g.withSettings emit limit) back = endsWithConstruction g back := rfl

theorem startsWithControl_withSettings (run : List Token) :
    startsWithControl (g.withSettings emit limit) run = startsWithControl g run := rfl

theorem LeadingPiece.atHead?_withSettings (run : List Token) :
    atHead? (g.withSettings emit limit) run = atHead? g run :=
  rfl

theorem Leading.extend_withSettings (l : Leading) (run : List Token) :
    extend (g.withSettings emit limit) l run = extend g l run := by
  fun_induction extend g l run with
  | case1 l run hnone => rw [extend_eq, LeadingPiece.atHead?_withSettings, hnone]
  | case2 l run piece hp ih => rw [extend_eq, LeadingPiece.atHead?_withSettings, hp, ← ih]

theorem Leading.ofRun_withSettings (run : List Token) :
    ofRun (g.withSettings emit limit) run = ofRun g run := by
  simp only [ofRun, extend_withSettings]

theorem TypeHeader.ofRun?_withSettings (run : List Token) :
    ofRun? (g.withSettings emit limit) run = ofRun? g run := by
  rw [ofRun?, Leading.ofRun_withSettings]
  rfl

theorem CallableHeader.ofRun?_withSettings (withBody : Bool) (run : List Token) :
    ofRun? (g.withSettings emit limit) withBody run = ofRun? g withBody run := by
  have hclause : withoutTrailingClause? (g.withSettings emit limit) run =
    withoutTrailingClause? g run := rfl
  have hchain : beforeInitializer? (g.withSettings emit limit) = beforeInitializer? g := rfl
  simp only [ofRun?, hclause, hchain, Leading.ofRun_withSettings]

theorem callReasonFrom_withSettings (depth : Nat) (inDefault : Bool) (run : List Token) :
    callReasonFrom (g.withSettings emit limit) depth inDefault run =
      callReasonFrom g depth inDefault run := by
  induction run generalizing depth inDefault with
  | nil => rfl
  | cons t run ih =>
      rw [callReasonFrom, callReasonFrom]
      simp only [ih]
      rfl

/-! ## What is decided -/

namespace Candidate

variable {source : String} {tracker : ScopeTracker} (c : Candidate)

theorem callableDecision_withSettings (withBody : Bool) (run : List Token) :
    c.callableDecision (g.withSettings emit limit) source tracker withBody run =
      c.callableDecision g source tracker withBody run := by
  have hkind : @CallableHeader.kind? (g.withSettings emit limit) = CallableHeader.kind? g := rfl
  have hreason : CallableHeader.callReason? (g.withSettings emit limit) =
      CallableHeader.callReason? g :=
    funext fun h => callReasonFrom_withSettings g emit limit 0 false _
  simp only [callableDecision, CallableHeader.ofRun?_withSettings, hkind, hreason]

theorem atSemicolon?_withSettings :
    c.atSemicolon? (g.withSettings emit limit) source tracker =
      c.atSemicolon? g source tracker := by
  have hmember : c.member (g.withSettings emit limit) = c.member g := rfl
  simp only [atSemicolon?, callableDecision_withSettings, hmember]
  rfl

/-- A brace opens the same, but for the symbol of a type. -/
theorem atBrace_withSettings :
    c.atBrace (g.withSettings emit limit) source tracker =
      c.atBrace (g.withSettings emit g.maxCandidateTokens) source tracker := by
  simp only [atBrace, typeDecision?, endsWithConstruction_withSettings,
    startsWithControl_withSettings, TypeHeader.ofRun?_withSettings, callableDecision_withSettings]
  rfl

end Candidate

end DeclTags
