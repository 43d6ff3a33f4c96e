import DeclTags.Proofs.Declarations

set_option autoImplicit false

/-! # Only declarations are reported

Every method and constructor that is reported was decided at a brace or semicolon, from a candidate
that is written like one: `DeclaredAt` says what is known of its tokens and of the scopes around
them. Nothing of it depends on how the candidate came about, so it holds of candidates that were
interrupted by a block, too (`Candidate.atBrace_sound`, `Candidate.atSemicolon?_sound`).

Calls, control blocks and constructions are not written like that; so in the languages that are
built in none of them is reported (`scan_reports_only_declarations`).
-/

namespace DeclTags

open DeclTags.Bracket (parens)

/-! ## Hyphenated modifiers -/

namespace Grammar

/-- No modifier begins with a control keyword and a hyphen. -/
def HyphensApart (g : Grammar) : Prop :=
  ∀ word ∈ g.modifiers, ∀ control ∈ g.controlKeywords,
    ¬(control.toList ++ ['-']) <+: word.toList

theorem HyphensApart.not_control {g : Grammar} (h : g.HyphensApart) {first second : String}
    (hmodifier : g.isModifier (first ++ "-" ++ second) = true) : g.isControl first = false := by
  simp only [isModifier, isControl, List.contains_eq_mem, decide_eq_true_eq,
    decide_eq_false_iff_not] at hmodifier ⊢
  refine fun hcontrol => h _ hmodifier _ hcontrol ⟨second.toList, ?_⟩
  simp [String.toList_append]

theorem hyphensApart_builtin : ∀ p ∈ Profile.builtins, (ofProfile p).HyphensApart := by
  rw [Profile.builtins, List.forall_mem_cons, List.forall_mem_singleton]
  constructor <;>
  · unfold HyphensApart
    decide +kernel

end Grammar

/-! ## Decisions -/

namespace Candidate

variable {g : Grammar} {source : String} {tracker : ScopeTracker} {c : Candidate}
  {run : List Token} {x : Symbol} {withBody : Bool}

/-- What is known of a shape that is read as a declaration. -/
structure Declares (g : Grammar) (tracker : ScopeTracker) (withBody : Bool)
    (s : CallableShape g) : Prop where
  type_or_owner : IsTypeRun g s.type ∨
    s.type = [] ∧ withBody = true ∧ tracker.IsOwner s.name.text
  params_parameters : ∀ u t v, s.params = u ++ t :: v → ReadsAsParameter g u t

theorem kind?_sound {s : CallableShape g} {chained : Bool} {kind : SymbolKind}
    (h : (s.header chained).kind? g tracker.enclosingType? withBody = some kind) :
    (IsTypeRun g s.type ∨ s.type = [] ∧ withBody = true ∧ tracker.IsOwner s.name.text) ∧
      kind = if s.type = [] then .constructor else .method := by
  unfold CallableHeader.kind? at h
  by_cases hnil : s.type = []
  · rw [if_pos (show (s.header chained).type.isEmpty = true by simp [CallableShape.header, hnil]),
      Option.ite_none_right_eq_some, Bool.and_eq_true, beq_iff_eq,
      ScopeTracker.enclosingType?_eq_some_iff] at h
    obtain ⟨howner, hkind⟩ := h
    cases hkind
    exact ⟨.inr ⟨hnil, howner⟩, (if_pos hnil).symm⟩
  · rw [if_neg (show ¬(s.header chained).type.isEmpty = true by simp [CallableShape.header, hnil]),
      Option.ite_none_right_eq_some, Bool.and_eq_true, isTypeRun_iff] at h
    obtain ⟨htype, hkind⟩ := h
    cases hkind
    exact ⟨.inl htype.1, (if_neg hnil).symm⟩

/-- A declaration is decided from the run of a shape, and is what the shape describes. No
parenthesis is open behind the shape if none is behind the run. -/
theorem callableDecision_sound
    (h : (c.callableDecision g source tracker withBody run).symbol? = some x) :
    ∃ (s : CallableShape g) (tail : List Token), run = s.tokens ++ tail ∧
      Declares g tracker withBody s ∧ x = s.symbol source tracker.path c.doc ∧
      (openParens run = 0 → openParens s.tokens = 0) := by
  unfold callableDecision at h
  split at h
  · cases h
  next header hheader =>
  obtain ⟨s, chain, hrest, hchain, rfl⟩ := CallableHeader.ofRun?_shape hheader
  obtain ⟨clause, hrun, -⟩ := withoutTrailingClause?_sound hrest
  have hopen : openParens run = 0 → openParens s.tokens = 0 := fun h0 => by
    have hmain := withoutTrailingClause?_openParens hrest h0
    rcases hchain with rfl | ⟨-, hchain⟩
    · rwa [List.append_nil] at hmain
    · rwa [openParens_append_balanced _ hchain.balanced] at hmain
  subst hrun
  split at h
  · cases h
  next kind hkind =>
  split at h
  · cases h
  next hreason =>
  rw [s.callReason?_header, callReason?_eq_none_iff s.params_balanced] at hreason
  obtain ⟨htype, rfl⟩ := kind?_sound hkind
  refine ⟨s, chain ++ clause, by rw [List.append_assoc], ⟨htype, hreason⟩, ?_, hopen⟩
  rw [List.append_assoc, List.head?_append_of_ne_nil _ s.tokens_ne_nil,
    List.head?_eq_some_head s.tokens_ne_nil] at h
  simp only [Decision.symbol?, Option.some.injEq, Option.map_some, Option.getD_some] at h
  rw [← h]
  simp only [CallableShape.header, s.groupText_group, CallableShape.symbol]

theorem typeDecision?_kind {d : Decision} (h : c.typeDecision? g source tracker run = some d)
    (hx : d.symbol? = some x) : x.kind = .type := by
  obtain ⟨header, -, rfl⟩ := Option.map_eq_some_iff.mp h
  simp only [Decision.symbol?] at hx
  split at hx
  · cases hx
    rfl
  · cases hx

/-- What a brace declares, if not a type, is written like a callable. -/
theorem atBrace_sound (hx : (c.atBrace g source tracker).symbol? = some x) (hk : x.kind ≠ .type) :
    ∃ (s : CallableShape g) (tail : List Token), c.tokens = s.tokens ++ tail ∧
      Declares g tracker true s ∧ x = s.symbol source tracker.path c.doc ∧
      (openParens c.tokens = 0 → openParens s.tokens = 0) := by
  obtain ⟨-, -, h | h⟩ := atBrace_symbol?_cases hx
  · exact absurd (typeDecision?_kind h hx) hk
  · exact callableDecision_sound h

/-- The part of a candidate that a semicolon judges, and what follows it: an expression body if
there is a body. -/
theorem member_sound (g : Grammar) (c : Candidate) :
    ∃ ending, c.tokens = (c.member g).1 ++ ending ∧
      ((c.member g).2 = true →
        ∃ mark body, ending = mark ++ body ∧ IsArrow g mark ∧ body ≠ []) := by
  unfold member
  simp only
  split
  · next before h =>
    obtain ⟨mark, body, hrun, hbody, harrow⟩ := memberTail?_sound h
    exact ⟨mark ++ body, by rw [hrun, List.append_assoc],
      fun _ => ⟨mark, body, rfl, harrow rfl, hbody⟩⟩
  · next before h =>
    obtain ⟨mark, body, hrun, -, -⟩ := memberTail?_sound h
    exact ⟨mark ++ body, by rw [hrun, List.append_assoc], by simp⟩
  · exact ⟨[], by simp, by simp⟩

/-- What a semicolon declares is written like a callable, and stands directly in a type. -/
theorem atSemicolon?_sound {d : Decision} (h : c.atSemicolon? g source tracker = some d)
    (hx : d.symbol? = some x) :
    tracker.directlyInType = true ∧ ∃ (s : CallableShape g) (tail ending : List Token)
      (withBody : Bool), c.tokens = s.tokens ++ (tail ++ ending) ∧
      Declares g tracker withBody s ∧ x = s.symbol source tracker.path c.doc ∧
      (withBody = true → ∃ mark body, ending = mark ++ body ∧ IsArrow g mark ∧ body ≠ []) ∧
      (openParens c.tokens = 0 → openParens s.tokens = 0) := by
  obtain ⟨hin, -, rfl⟩ := atSemicolon?_cases h
  obtain ⟨s, tail, hrun, hdeclares, hsymbol, hopen⟩ := callableDecision_sound hx
  obtain ⟨ending, htokens, hending⟩ := c.member_sound g
  exact ⟨hin, s, tail, ending, _, by rw [htokens, hrun, List.append_assoc], hdeclares, hsymbol,
    hending, fun h0 => hopen (member_openParens h0)⟩

end Candidate

/-! ## What is reported -/

namespace ScopeTracker

/-- The innermost scope is the body of a named type. -/
def InType (t : ScopeTracker) : Prop :=
  ∃ scope outer name index, t.scopes = scope :: outer ∧ scope.opener = .type name index

theorem directlyInType_iff {t : ScopeTracker} : t.directlyInType = true ↔ t.InType := by
  unfold directlyInType current? InType
  cases hs : t.scopes with
  | nil => simp
  | cons scope outer => cases ho : scope.opener <;> simp [ho]

end ScopeTracker

/-- At the token `t` the symbol `x` is declared by the candidate, which is the run of the shape and
`tail`: behind its labels it has no control keyword, unless that is a modifier with no parenthesis
behind it; a method has a type; a constructor is named like its owner and has a body; the parameters
do not read as the arguments of a call; and a semicolon declares only directly in a type. -/
structure DeclaredAt (g : Grammar) (source : String) (s : Scan) (t : Token) (x : Symbol)
    (shape : CallableShape g) (tail : List Token) : Prop where
  tokens_eq : s.recognizer.candidate.tokens = shape.tokens ++ tail
  symbol_eq : x = shape.symbol source s.tracker.path s.recognizer.candidate.doc
  no_control : ∀ labels u rest, shape.tokens ++ tail = labels ++ u :: rest → Labels labels →
    u.isKeyword = true → g.isControl u.text = true →
      g.isModifier u.text = true ∧ rest.head?.any (·.isPunct '(') = false
  method_type : x.kind = .method → shape.type ≠ [] ∧ IsTypeRun g shape.type
  constructor_owner : x.kind = .constructor → s.tracker.IsOwner x.name ∧
    (t.isPunct '{' = true ∨ t.isPunct ';' = true ∧ ∃ between mark body,
      tail = between ++ mark ++ body ∧ IsArrow g mark ∧ body ≠ [])
  params_parameters : ∀ u p v, shape.params = u ++ p :: v → ReadsAsParameter g u p
  member_in_type : t.isPunct ';' = true → s.tracker.InType

variable {g : Grammar} {source : String}

/-- The first word of a leading part, if it is a control keyword, is a modifier. -/
theorem Leading.Reads.control_modifier (hg : g.HyphensApart) {leading rest : List Token}
    {words : List String} {t : Token} (h : Leading.Reads g leading words)
    (hcons : leading = t :: rest) (hk : t.isKeyword = true) (hcontrol : g.isControl t.text = true) :
    g.isModifier t.text = true := by
  subst hcons
  rcases h.cons_cases (Token.isWord_of_isKeyword hk) with ⟨-, hmodifier, -⟩ |
    ⟨hyphen, second, run, -, -, hmodifier⟩
  · exact hmodifier
  · rw [hg.not_control hmodifier] at hcontrol
    cases hcontrol

namespace Candidate.Declares

variable {tracker : ScopeTracker} {withBody : Bool} {shape : CallableShape g}

/-- What is declared does not begin like a control block. -/
theorem no_control (hg : g.WordsDisjoint) (hh : g.HyphensApart)
    (h : Declares g tracker withBody shape) (tail : List Token) :
    ∀ labels u rest, shape.tokens ++ tail = labels ++ u :: rest → Labels labels →
      u.isKeyword = true → g.isControl u.text = true →
        g.isModifier u.text = true ∧ rest.head?.any (·.isPunct '(') = false := by
  refine startsWithControl_eq_false_iff.mp
    (shape.not_startsWithControl (fun _ => hg.not_control) ?_ ?_ tail)
  · rcases h.type_or_owner with htype | ⟨hnil, -⟩
    · exact htype.all
    · simp [hnil]
  · exact fun t rest => shape.leading_reads.control_modifier hh

theorem method_type (h : Declares g tracker withBody shape) {path : List String}
    {doc : Option String} (hk : (shape.symbol source path doc).kind = .method) :
    shape.type ≠ [] ∧ IsTypeRun g shape.type := by
  rcases h.type_or_owner with htype | ⟨hnil, -⟩
  · exact ⟨htype.ne_nil, htype⟩
  · simp [CallableShape.symbol, hnil] at hk

theorem constructor_owner (h : Declares g tracker withBody shape) {path : List String}
    {doc : Option String} (hk : (shape.symbol source path doc).kind = .constructor) :
    withBody = true ∧ tracker.IsOwner shape.name.text := by
  rcases h.type_or_owner with htype | ⟨-, howner⟩
  · simp [CallableShape.symbol, htype.ne_nil] at hk
  · exact howner

end Candidate.Declares

namespace Scan

variable {s : Scan} {t : Token} {x : Symbol}

/-- A symbol that is reported at a token is declared there by the candidate, if it is no type. -/
theorem declaredAt_of_symbol? (hg : g.WordsDisjoint) (hh : g.HyphensApart)
    (h : s.symbol? g source t = some x) (hk : x.kind ≠ .type) :
    (t.isPunct '{' = true ∨ t.isPunct ';' = true) ∧
      ∃ shape tail, DeclaredAt g source s t x shape tail := by
  obtain ⟨d, hd, hx⟩ := Option.bind_eq_some_iff.mp h
  rcases decision?_cases hd with ⟨ho, rfl⟩ | ⟨hs, -, hd⟩
  · obtain ⟨shape, tail, htokens, hdeclares, rfl, -⟩ := Candidate.atBrace_sound hx hk
    exact ⟨.inl ho, shape, tail, {
      tokens_eq := htokens
      symbol_eq := rfl
      no_control := hdeclares.no_control hg hh tail
      method_type := hdeclares.method_type
      constructor_owner := fun hkind => ⟨(hdeclares.constructor_owner hkind).2, .inl ho⟩
      params_parameters := hdeclares.params_parameters
      member_in_type := fun hs => by
        rw [Token.not_isPunct_of_ne ho (by decide)] at hs
        cases hs }⟩
  · obtain ⟨hin, shape, tail, ending, withBody, htokens, hdeclares, rfl, hending, -⟩ :=
      Candidate.atSemicolon?_sound hd hx
    refine ⟨.inr hs, shape, tail ++ ending, {
      tokens_eq := htokens
      symbol_eq := rfl
      no_control := hdeclares.no_control hg hh _
      method_type := hdeclares.method_type
      constructor_owner := fun hkind => ?_
      params_parameters := hdeclares.params_parameters
      member_in_type := fun _ => ScopeTracker.directlyInType_iff.mp hin }⟩
    -- without a brace, the body of a constructor is an expression
    obtain ⟨hbody, howner⟩ := hdeclares.constructor_owner hkind
    obtain ⟨mark, body, rfl, harrow, hne⟩ := hending hbody
    exact ⟨howner, .inr ⟨hs, tail, mark, body, by rw [List.append_assoc], harrow, hne⟩⟩

/-- Each reported symbol is reported at some token. -/
theorem exists_of_mem_reported {ts : List Token} (h : x ∈ reported g source ts s) :
    ∃ before t after, ts = before ++ t :: after ∧
      (run g source before s).symbol? g source t = some x := by
  induction ts generalizing s with
  | nil => cases h
  | cons t ts ih =>
      rw [reported_cons, List.mem_append] at h
      rcases h with h | h
      · exact ⟨[], t, ts, rfl, Option.mem_toList.mp h⟩
      · obtain ⟨before, u, after, rfl, hsymbol⟩ := ih h
        exact ⟨t :: before, u, after, rfl, hsymbol⟩

end Scan

/-- **In the languages that are built in no call, control block or construction is reported**: every
method and constructor is declared at a brace or semicolon by a candidate that is written like
one. -/
theorem scan_reports_only_declarations (hg : g ∈ Profile.builtins.map Grammar.ofProfile)
    (source : List Char) {x : Symbol} (hx : x ∈ (scan g source).symbols) (hk : x.kind ≠ .type) :
    ∃ before t after, tokensOf g source = before ++ t :: after ∧
      (t.isPunct '{' = true ∨ t.isPunct ';' = true) ∧
      ∃ shape tail, DeclaredAt g (String.ofList source)
        (Scan.run g (String.ofList source) before {}) t x shape tail := by
  obtain ⟨p, hp, rfl⟩ := List.mem_map.mp hg
  rw [scan_symbols] at hx
  obtain ⟨before, t, after, hts, hsymbol⟩ := Scan.exists_of_mem_reported hx
  exact ⟨before, t, after, hts, Scan.declaredAt_of_symbol? (Grammar.wordsDisjoint_builtin p hp)
    (Grammar.hyphensApart_builtin p hp) hsymbol hk⟩

/-- A constructor in a class. -/
theorem scan_reports_constructor :
    let source := "class A { A(int x) { } }".toList
    let x : Symbol := {
      name := "A"
      kind := .constructor
      modifiers := []
      parameterText := "int x"
      startLine := 1
      span := ⟨10, 11, 1, 11⟩
      path := ["A"] }
    x ∈ (scan (.ofProfile .java) source).symbols ∧
      ∃ before t after, tokensOf (.ofProfile .java) source = before ++ t :: after ∧
        (t.isPunct '{' = true ∨ t.isPunct ';' = true) ∧
        ∃ shape tail, DeclaredAt (.ofProfile .java) (String.ofList source)
          (Scan.run (.ofProfile .java) (String.ofList source) before {}) t x shape tail := by
  intro source x
  have hjava : Grammar.ofProfile .java ∈ Profile.builtins.map Grammar.ofProfile :=
    List.mem_map_of_mem (List.mem_cons_of_mem _ List.mem_cons_self)
  have hx : x ∈ (scan (.ofProfile .java) source).symbols := by decide +kernel
  exact ⟨hx, scan_reports_only_declarations hjava source hx (by decide)⟩

end DeclTags
