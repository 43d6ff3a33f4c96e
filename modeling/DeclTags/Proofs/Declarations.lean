import DeclTags.Profile.Builtin
import DeclTags.Proofs.Arguments
import DeclTags.Proofs.Beginnings
import DeclTags.Proofs.Candidates

set_option autoImplicit false

/-! # Declarations are recognized

At a brace six readings are tried one after another, each on its own search through the tokens. In a
grammar whose word classes are disjoint (`Grammar.WordsDisjoint`), as in those that are built in,
the tokens of a method or constructor pass the first five and are read as what they declare
(`Candidate.atBrace_of_isDeclaration`).

`IsDocumented` says which tokens the recognizer is described to accept. Not all of them are:
`Candidate.documented_not_declared` has three that are not, and `IsDeclaration` excludes these
cases.
-/

namespace DeclTags

open DeclTags.Bracket (parens)

/-! ## Word classes -/

/-- No word belongs to both classes. -/
def Apart (first second : List String) : Prop := ∀ word ∈ first, word ∉ second

namespace Grammar

/-- The word classes that the shapes of declarations tell apart, but for modifiers and control
keywords. -/
def shapeClasses (g : Grammar) : List (List String) :=
  [g.typeKeywords, g.typeDeclarationKeywords, g.trailingClauseKeywords,
    g.anonymousClassKeyword.toList, g.constructorInitializers]

/-- The word classes are disjoint, except that a control keyword may be a modifier. -/
structure WordsDisjoint (g : Grammar) : Prop where
  shapes : g.shapeClasses.Pairwise Apart
  modifiers : ∀ c ∈ g.shapeClasses, Apart g.modifiers c
  control : ∀ c ∈ g.shapeClasses, Apart g.controlKeywords c

namespace WordsDisjoint

variable {g : Grammar} {word : String}

theorem not_modifier (h : g.WordsDisjoint) (hword : g.isTypeKeyword word = true) :
    g.isModifier word = false := by
  simp only [isTypeKeyword, isModifier, List.contains_eq_mem, decide_eq_true_eq,
    decide_eq_false_iff_not] at hword ⊢
  exact fun hm => h.modifiers _ (by simp [shapeClasses]) word hm hword

theorem not_control (h : g.WordsDisjoint) (hword : g.isTypeKeyword word = true) :
    g.isControl word = false := by
  simp only [isTypeKeyword, isControl, List.contains_eq_mem, decide_eq_true_eq,
    decide_eq_false_iff_not] at hword ⊢
  exact fun hc => h.control _ (by simp [shapeClasses]) word hc hword

theorem not_typeDeclaration (h : g.WordsDisjoint) (hword : g.isTypeKeyword word = true) :
    g.isTypeDeclaration word = false := by
  have hshapes := h.shapes
  simp only [shapeClasses, List.pairwise_cons] at hshapes
  simp only [isTypeKeyword, isTypeDeclaration, List.contains_eq_mem, decide_eq_true_eq,
    decide_eq_false_iff_not] at hword ⊢
  exact hshapes.1 _ (by simp) word hword

theorem not_trailingClause (h : g.WordsDisjoint)
    (hword : g.isConstructorInitializer word = true) : g.isTrailingClause word = false := by
  have hshapes := h.shapes
  simp only [shapeClasses, List.pairwise_cons] at hshapes
  simp only [isConstructorInitializer, isTrailingClause, List.contains_eq_mem, decide_eq_true_eq,
    decide_eq_false_iff_not] at hword ⊢
  exact fun ht => hshapes.2.2.1 _ (by simp) word ht hword

end WordsDisjoint

instance (first second : List String) : Decidable (Apart first second) :=
  inferInstanceAs (Decidable (∀ word ∈ first, word ∉ second))

/-- The languages that are built in tell their words apart. -/
theorem wordsDisjoint_builtin : ∀ p ∈ Profile.builtins, (ofProfile p).WordsDisjoint := by
  rw [Profile.builtins, List.forall_mem_cons, List.forall_mem_singleton]
  exact ⟨⟨by decide +kernel, by decide +kernel, by decide +kernel⟩,
    ⟨by decide +kernel, by decide +kernel, by decide +kernel⟩⟩

end Grammar

/-! ## The documented shape -/

namespace ScopeTracker

/-- The innermost class-like scope is the body of a type of that name. -/
def IsOwner (t : ScopeTracker) (name : String) : Prop :=
  ∃ inner scope outer index, t.scopes = inner ++ scope :: outer ∧
    (∀ x ∈ inner, x.opener.isClassLike = false) ∧ scope.opener = .type name index

/-- The innermost body of a named type is that of a type of that name, whatever is opened in it. -/
def IsInnermostType (t : ScopeTracker) (name : String) : Prop :=
  ∃ inner scope outer index, t.scopes = inner ++ scope :: outer ∧
    (∀ x ∈ inner, ∀ other i, x.opener ≠ .type other i) ∧ scope.opener = .type name index

theorem enclosingType?_eq_some_iff {t : ScopeTracker} {name : String} :
    t.enclosingType? = some name ↔ t.IsOwner name := by
  unfold enclosingType? IsOwner
  constructor
  · intro h
    split at h
    · next name' index heq =>
      cases h
      obtain ⟨scope, hfind, hopener⟩ := Option.map_eq_some_iff.mp heq
      obtain ⟨-, inner, outer, hscopes, hinner⟩ := List.find?_eq_some_iff_append.mp hfind
      exact ⟨inner, scope, outer, index, hscopes, by simpa using hinner, hopener⟩
    · cases h
  · rintro ⟨inner, scope, outer, index, hscopes, hinner, hopener⟩
    have hclass : scope.opener.isClassLike = true := by rw [hopener]; rfl
    have hfind : t.scopes.find? (·.opener.isClassLike) = some scope :=
      List.find?_eq_some_iff_append.mpr ⟨hclass, inner, outer, hscopes, by simpa using hinner⟩
    rw [hfind, Option.map_some, hopener]

end ScopeTracker

/-- The tokens of a shape with a chain and a clause behind it, as a declaration is described: a type
and no chain, or no type and the name of the owner; parentheses that match; and parameters that do
not read as the arguments of a call. -/
structure IsDocumented (g : Grammar) (owner : String → Prop) (s : CallableShape g)
    (chain clause : List Token) : Prop where
  type_or_owner : IsType g s.type ∨ s.type = [] ∧ owner s.name.text
  chain_constructor : chain = [] ∨ s.type = [] ∧ IsChain g chain
  clause_trailing : clause = [] ∨ IsTrailingClause g clause
  tokens_balanced : parens.Balanced s.tokens
  clause_balanced : parens.Balanced clause
  params_parameters : ∀ u t v, s.params = u ++ t :: v → ReadsAsParameter g u t

/-- A documented declaration that no other reading takes: its owner is the innermost class-like
scope, the tokens do not end with the construction of an object, and no keyword of a trailing clause
stands behind a group of parentheses in front of the parameters. (A hyphenated modifier might begin
with a control keyword.) -/
structure IsDeclaration (g : Grammar) (tracker : ScopeTracker) (s : CallableShape g)
    (chain clause : List Token) : Prop extends
    IsDocumented g tracker.IsOwner s chain clause where
  no_construction : ¬EndsWithConstruction g (s.tokens ++ chain ++ clause)
  no_early_clause : ∀ u t v, s.tokens = u ++ t :: v → IsClauseKeyword g t → ¬BehindGroup u
  no_control : ∀ t rest, s.leading = t :: rest → t.isKeyword = true → g.isControl t.text = true →
    g.isModifier t.text = true

namespace CallableShape

variable {g : Grammar}

theorem tokens_ne_nil (s : CallableShape g) : s.tokens ≠ [] := by simp [tokens, call]

/-- What the shape declares. -/
def symbol (s : CallableShape g) (source : String) (path : List String) (doc : Option String) :
    Symbol where
  name := s.name.text
  kind := if s.type = [] then .constructor else .method
  modifiers := s.words.eraseDups
  parameterText := Text.slice s.opening.stop s.closing.start source
  startLine := (s.tokens.head s.tokens_ne_nil).line
  span := .ofToken s.name
  path := path
  docComment := doc

theorem groupText_group (s : CallableShape g) (source : String) :
    groupText source s.group = Text.slice s.opening.stop s.closing.start source := by
  simp [groupText, group, List.getLast?_cons]

theorem callReason?_header (s : CallableShape g) (chained : Bool) :
    (s.header chained).callReason? g = callReason? g s.params := by
  simp [CallableHeader.callReason?, header, group]

end CallableShape

namespace IsDeclaration

variable {g : Grammar} {tracker : ScopeTracker} {s : CallableShape g} {chain clause : List Token}

theorem tail (h : IsDeclaration g tracker s chain clause) :
    CallableHeader.Tail g true chain clause :=
  ⟨h.chain_constructor.imp id fun hc => ⟨rfl, hc.2⟩, h.clause_trailing⟩

theorem type_cases (h : IsDeclaration g tracker s chain clause) :
    s.type = [] ∨ IsType g s.type := h.type_or_owner.symm.imp And.left id

theorem balanced (h : IsDeclaration g tracker s chain clause) :
    parens.Balanced (s.tokens ++ chain ++ clause) := by
  refine (h.tokens_balanced.append ?_).append h.clause_balanced
  rcases h.chain_constructor with rfl | ⟨-, hchain⟩
  · exact Bracket.Balanced.nil parens
  · exact hchain.balanced

theorem kind? (h : IsDeclaration g tracker s chain clause) :
    (s.header (!chain.isEmpty)).kind? g tracker.enclosingType? true =
      some (if s.type = [] then .constructor else .method) := by
  rcases h.type_or_owner with htype | ⟨hnil, howner⟩
  · have hne := htype.ne_nil
    have hchain : chain = [] := h.chain_constructor.resolve_right fun hc => hne hc.1
    have hrun := isTypeRun_iff.mpr htype.toIsTypeRun
    simp [CallableHeader.kind?, CallableShape.header, hne, hrun, hchain]
  · have := ScopeTracker.enclosingType?_eq_some_iff.mpr howner
    simp [CallableHeader.kind?, CallableShape.header, hnil, this]

end IsDeclaration

/-! ## The decision -/

namespace Candidate

variable {g : Grammar}

/-- **The tokens of a declaration are decided to be one**, with its name, kind, modifiers and
parameters, in every grammar with disjoint word classes; and those that are built in are such. -/
theorem atBrace_of_isDeclaration :
    (∀ p ∈ Profile.builtins, (Grammar.ofProfile p).WordsDisjoint) ∧
      ∀ (g : Grammar) (source : String) (tracker : ScopeTracker) (doc : Option String)
        (s : CallableShape g) (chain clause : List Token),
        g.WordsDisjoint → IsDeclaration g tracker s chain clause →
        (s.tokens ++ chain ++ clause).length ≤ g.maxCandidateTokens →
        (ofRun g.maxCandidateTokens doc (s.tokens ++ chain ++ clause)).atBrace g source tracker =
          .declaration (s.symbol source tracker.path doc) := by
  refine ⟨Grammar.wordsDisjoint_builtin, fun g source tracker doc s chain clause hg h hlen => ?_⟩
  -- the readings in the order in which they are tried: each but the last one fails
  have hempty : (s.tokens ++ chain ++ clause).reverse.isEmpty = false := by
    simp [s.tokens_ne_nil]
  have hconstruction : endsWithConstruction g (s.tokens ++ chain ++ clause).reverse = false := by
    rw [Bool.eq_false_iff, ne_eq, endsWithConstruction_reverse_iff]
    exact h.no_construction
  have hall : ∀ t ∈ s.type, isTypeToken g t = true := by
    rcases h.type_cases with hnil | htype
    · simp [hnil]
    · exact htype.all
  have hcontrol : startsWithControl g (s.tokens ++ chain ++ clause) = false := by
    rw [List.append_assoc]
    exact s.not_startsWithControl (fun _ => hg.not_control) hall h.no_control _
  have htype : TypeHeader.ofRun? g (s.tokens ++ chain ++ clause) = none := by
    rw [List.append_assoc]
    exact s.typeHeader_eq_none (fun _ => hg.not_modifier) (fun _ => hg.not_typeDeclaration)
      h.type_cases _
  -- the last one finds the header of the shape, and no reason to take it for a call
  have hheader := s.ofRun?_complete (fun _ => hg.not_modifier) (fun _ => hg.not_trailingClause)
    h.type_cases h.tokens_balanced h.tail h.no_early_clause
  have hreason : callReason? g s.params = none :=
    (callReason?_eq_none_iff s.params_balanced).mpr h.params_parameters
  have hline : (s.tokens ++ chain ++ clause).head? = some (s.tokens.head s.tokens_ne_nil) := by
    rw [List.append_assoc, List.head?_append_of_ne_nil _ s.tokens_ne_nil,
      List.head?_eq_some_head s.tokens_ne_nil]
  rw [ofRun_eq hlen h.balanced, atBrace]
  simp only [isEmpty, hempty, hconstruction, tokens, List.reverse_reverse, hcontrol,
    typeDecision?, htype, callableDecision, hheader, h.kind?, s.callReason?_header, hreason,
    Bool.or_self, Bool.false_eq_true, if_false, Nat.lt_irrefl, Option.map_none, Option.getD_none]
  simp only [hline, Option.map_some, Option.getD_some, CallableShape.header,
    s.groupText_group, CallableShape.symbol]

/-! ## Fixed tokens -/

/-- A token on the first line of a text without wide characters. -/
def placed (kind : TokenKind) (text : String) (start : Nat) : Token :=
  ⟨kind, text, start, start + text.length, 1, start + 1, true⟩

/-- `[Obsolete] public A(int x = 1)` -/
def constructorShape : CallableShape (.ofProfile .csharp) where
  leading := [placed (.punctuation '[') "[" 0, placed .identifier "Obsolete" 1,
    placed (.punctuation ']') "]" 9, placed .keyword "public" 11]
  words := ["public"]
  typeParameters := []
  type := []
  name := placed .identifier "A" 18
  typeArguments := []
  opening := placed (.punctuation '(') "(" 19
  params := [placed .keyword "int" 20, placed .identifier "x" 24, placed (.punctuation '=') "=" 26,
    placed .number "1" 28]
  closing := placed (.punctuation ')') ")" 29
  leading_reads := ⟨[_, _, _], [_], rfl,
    .cons ⟨_, [_], _, rfl, rfl, rfl, by decide⟩ .nil, .cons (.keyword rfl (by decide +kernel)) .nil⟩
  typeParameters_angles := .inl rfl
  name_identifier := rfl
  typeArguments_angles := .inl rfl
  opening_paren := rfl
  closing_paren := rfl
  params_balanced := by decide

/-- `: base(x)` -/
def baseChain : List Token :=
  [placed (.punctuation ':') ":" 31, placed .keyword "base" 33, placed (.punctuation '(') "(" 37,
    placed .identifier "x" 38, placed (.punctuation ')') ")" 39]

/-- `where T : class` -/
def classClause : List Token :=
  [placed .keyword "where" 41, placed .identifier "T" 47, placed (.punctuation ':') ":" 49,
    placed .keyword "class" 51]

/-- A constructor with an attribute, a default value, a chain and a clause. -/
theorem atBrace_of_constructor :
    let g := Grammar.ofProfile .csharp
    let source := "[Obsolete] public A(int x = 1) : base(x) where T : class"
    let tracker : ScopeTracker := { scopes := [⟨0, .type "A" none, 1, 0⟩] }
    let run := constructorShape.tokens ++ baseChain ++ classClause
    g.WordsDisjoint ∧ IsDeclaration g tracker constructorShape baseChain classClause ∧
      run.length ≤ g.maxCandidateTokens ∧
      (ofRun g.maxCandidateTokens none run).atBrace g source tracker =
        .declaration {
          name := "A"
          kind := .constructor
          modifiers := ["public"]
          parameterText := "int x = 1"
          startLine := 1
          span := ⟨18, 19, 1, 19⟩
          path := ["A"] } := by
  intro g source tracker run
  have hdisjoint : g.WordsDisjoint :=
    Grammar.wordsDisjoint_builtin .csharp (List.mem_cons_self)
  have hdeclaration : IsDeclaration g tracker constructorShape baseChain classClause := {
    type_or_owner := .inr ⟨rfl, [], _, [], none, rfl, by simp, rfl⟩
    chain_constructor := .inr ⟨rfl, _, _, [_, _, _], rfl, rfl, rfl, by decide +kernel,
      ⟨_, [_], _, rfl, rfl, rfl, by decide⟩⟩
    clause_trailing := .inr ⟨_, _, rfl, ⟨rfl, by decide +kernel⟩, by simp, by decide +kernel⟩
    tokens_balanced := by decide +kernel
    clause_balanced := by decide +kernel
    params_parameters := (callReason?_eq_none_iff constructorShape.params_balanced).mp
      (by decide +kernel)
    no_construction := by
      rw [← endsWithConstruction_reverse_iff]
      decide +kernel
    no_early_clause := fun u t v heq ht => by
      have hnone : ∀ t ∈ constructorShape.tokens,
          (t.isKeyword && g.isTrailingClause t.text) = false := by decide +kernel
      have hfalse := hnone t (heq ▸ List.mem_append_right u List.mem_cons_self)
      rw [ht.1, ht.2] at hfalse
      cases hfalse
    no_control := by
      rintro t rest heq hk -
      cases heq
      cases hk }
  have hlen : run.length ≤ g.maxCandidateTokens := by decide +kernel
  refine ⟨hdisjoint, hdeclaration, hlen, ?_⟩
  rw [(atBrace_of_isDeclaration).2 g source tracker none constructorShape baseChain classClause
    hdisjoint hdeclaration hlen]
  decide +kernel

/-- `void f()` -/
def methodShape : CallableShape (.ofProfile .java) where
  leading := []
  words := []
  typeParameters := []
  type := [placed .keyword "void" 0]
  name := placed .identifier "f" 5
  typeArguments := []
  opening := placed (.punctuation '(') "(" 6
  params := []
  closing := placed (.punctuation ')') ")" 7
  leading_reads := ⟨[], [], rfl, .nil, .nil⟩
  typeParameters_angles := .inl rfl
  name_identifier := rfl
  typeArguments_angles := .inl rfl
  opening_paren := rfl
  closing_paren := rfl
  params_balanced := Bracket.Balanced.nil _

/-- `throws new B()` -/
def constructionClause : List Token :=
  [placed .keyword "throws" 9, placed .keyword "new" 16, placed .identifier "B" 20,
    placed (.punctuation '(') "(" 21, placed (.punctuation ')') ")" 22]

/-- `A()` -/
def ownerShape : CallableShape (.ofProfile .java) :=
  { methodShape with type := [], name := placed .identifier "A" 5, name_identifier := rfl }

/-- `[B(1), where] void f()` -/
def attributeShape : CallableShape (.ofProfile .csharp) where
  leading := [placed (.punctuation '[') "[" 0, placed .identifier "B" 1,
    placed (.punctuation '(') "(" 2, placed .number "1" 3, placed (.punctuation ')') ")" 4,
    placed (.punctuation ',') "," 5, placed .keyword "where" 7, placed (.punctuation ']') "]" 12]
  words := []
  typeParameters := []
  type := [placed .keyword "void" 14]
  name := placed .identifier "f" 19
  typeArguments := []
  opening := placed (.punctuation '(') "(" 20
  params := []
  closing := placed (.punctuation ')') ")" 21
  leading_reads := ⟨[_, _, _, _, _, _, _, _], [], rfl,
    .cons ⟨_, [_, _, _, _, _, _], _, rfl, rfl, rfl, by decide⟩ .nil, .nil⟩
  typeParameters_angles := .inl rfl
  name_identifier := rfl
  typeArguments_angles := .inl rfl
  opening_paren := rfl
  closing_paren := rfl
  params_balanced := Bracket.Balanced.nil _

/-- **Not every documented declaration is recognized**: a clause that ends with the construction of
an object makes the tokens an anonymous class; a constructor is not looked for in an anonymous class
inside of its type; and the keyword of a clause in an attribute list is taken for a clause if a
group of parentheses stands before it. -/
theorem documented_not_declared :
    let java := Grammar.ofProfile .java
    let csharp := Grammar.ofProfile .csharp
    let inType : ScopeTracker := { scopes := [⟨0, .type "A" none, 1, 0⟩] }
    let inAnonymous : ScopeTracker :=
      { scopes := [⟨1, .anonymousClass, 1, 1⟩, ⟨0, .type "A" none, 1, 0⟩] }
    (IsDocumented java inType.IsInnermostType methodShape [] constructionClause ∧
        (ofRun java.maxCandidateTokens none (methodShape.tokens ++ [] ++ constructionClause)).atBrace
          java "void f() throws new B()" inType = .anonymousClass) ∧
      (IsDocumented java inAnonymous.IsInnermostType ownerShape [] [] ∧
        (ofRun java.maxCandidateTokens none (ownerShape.tokens ++ [] ++ [])).atBrace
          java "     A()" inAnonymous = .unknown) ∧
      (IsDocumented csharp inType.IsInnermostType attributeShape [] [] ∧
        (ofRun csharp.maxCandidateTokens none (attributeShape.tokens ++ [] ++ [])).atBrace
          csharp "[B(1), where] void f()" inType = .unknown) := by
  intro java csharp inType inAnonymous
  refine ⟨⟨?_, by decide +kernel⟩, ⟨?_, by decide +kernel⟩, ⟨?_, by decide +kernel⟩⟩
  · exact {
      type_or_owner := .inl ⟨⟨by decide +kernel, _, rfl, .inr (.inl ⟨rfl, by decide +kernel⟩)⟩,
        _, [], rfl, .inr ⟨rfl, by decide +kernel⟩⟩
      chain_constructor := .inl rfl
      clause_trailing := .inr ⟨_, _, rfl, ⟨rfl, by decide +kernel⟩, by simp, by decide +kernel⟩
      tokens_balanced := by decide +kernel
      clause_balanced := by decide +kernel
      params_parameters := fun u _ _ h => by cases u <;> cases h }
  · exact {
      type_or_owner := .inr ⟨rfl, [_], _, [], none, rfl, by simp, rfl⟩
      chain_constructor := .inl rfl
      clause_trailing := .inl rfl
      tokens_balanced := by decide +kernel
      clause_balanced := Bracket.Balanced.nil _
      params_parameters := fun u _ _ h => by cases u <;> cases h }
  · exact {
      type_or_owner := .inl ⟨⟨by decide +kernel, _, rfl, .inr (.inl ⟨rfl, by decide +kernel⟩)⟩,
        _, [], rfl, .inr ⟨rfl, by decide +kernel⟩⟩
      chain_constructor := .inl rfl
      clause_trailing := .inl rfl
      tokens_balanced := by decide +kernel
      clause_balanced := Bracket.Balanced.nil _
      params_parameters := fun u _ _ h => by cases u <;> cases h }

end Candidate

end DeclTags
