import DeclTags.Proofs.Accounting
import DeclTags.Proofs.Blocks
import DeclTags.Proofs.Settings

set_option autoImplicit false

/-! # Reporting types

A grammar may report the types it sees, or see them silently. The switch, one of the grammar's
settings, changes nothing but the symbols of types: the lexer does not read it, and at every token
the two scans decide the same (`Scan.InStep.decision?_eq`), up to the symbol of a type
(`Decision.silenced`). So their states stay in step (`Scan.InStep`): the same recognizer, the same
outline of scopes and counts, the same diagnostics, and in one table the symbols of the other that
are no types.
-/

namespace DeclTags

/-- The switch is one of the settings. -/
theorem Grammar.withTypeSymbols_eq (g : Grammar) (emit : Bool) :
    g.withTypeSymbols emit = g.withSettings emit g.maxCandidateTokens := rfl

@[simp] theorem tokensOf_withTypeSymbols (g : Grammar) (emit : Bool) (source : List Char) :
    tokensOf (g.withTypeSymbols emit) source = tokensOf g source :=
  tokensOf_withSettings g emit g.maxCandidateTokens source

/-! ## What is decided -/

namespace Decision

/-- The decision without the symbol of a type. -/
def silenced : Decision → Decision
  | .type name _ => .type name none
  | d => d

/-- Whether a brace opens a type. -/
def isType : Decision → Bool
  | .type _ _ => true
  | _ => false

/-- The symbol of a type is a type, that of a declaration is none. -/
def IsKinded : Decision → Prop
  | .declaration x => x.kind ≠ .type
  | .type _ symbol => ∀ x, symbol = some x → x.kind = .type
  | _ => True

@[simp] theorem isType_silenced (d : Decision) : d.silenced.isType = d.isType := by
  cases d <;> rfl

theorem silenced_of_not_isType {d : Decision} (h : d.isType = false) : d.silenced = d := by
  cases d with
  | type name symbol => cases h
  | _ => rfl

theorem symbol?_silenced {d : Decision} (h : d.IsKinded) :
    d.silenced.symbol?.toList = d.symbol?.toList.filter fun x => decide (x.kind ≠ .type) := by
  cases d with
  | declaration x =>
      have hx : x.kind ≠ .type := h
      simp [silenced, symbol?, hx]
  | type name symbol =>
      cases symbol with
      | none => rfl
      | some x => simp [silenced, symbol?, h x rfl]
  | _ => rfl

/-- The opener of a scope does not show whether its type was reported. -/
theorem openerOf_silenced (d : Decision) (m n : Nat) :
    (Scan.openerOf m d.silenced).unindexed = (Scan.openerOf n d).unindexed := by
  cases d <;> rfl

end Decision

/-- A callable is a method or a constructor. -/
theorem CallableHeader.kind?_ne_type {g : Grammar} {h : CallableHeader} {type? : Option String}
    {withBody : Bool} {kind : SymbolKind} (hk : h.kind? g type? withBody = some kind) :
    kind ≠ .type := by
  unfold kind? at hk
  grind

namespace Candidate

variable {g : Grammar} {source : String} {tracker : ScopeTracker} {c : Candidate}

theorem callableDecision_isKinded (withBody : Bool) (run : List Token) :
    (c.callableDecision g source tracker withBody run).IsKinded := by
  unfold callableDecision
  split
  · trivial
  · split
    · trivial
    · next kind hk =>
      split
      · trivial
      · exact CallableHeader.kind?_ne_type hk

theorem callableDecision_not_isType (withBody : Bool) (run : List Token) :
    (c.callableDecision g source tracker withBody run).isType = false := by
  unfold callableDecision
  split
  · rfl
  · split
    · rfl
    · split <;> rfl

theorem typeDecision?_isKinded {d : Decision}
    (h : c.typeDecision? g source tracker c.tokens = some d) : d.IsKinded := by
  obtain ⟨header, -, rfl⟩ := Option.map_eq_some_iff.mp h
  intro x hx
  by_cases he : g.emitTypeSymbols = true
  · rw [if_pos he] at hx
    exact (Option.some.inj hx) ▸ rfl
  · rw [if_neg he] at hx
    cases hx

theorem atBrace_isKinded : (c.atBrace g source tracker).IsKinded := by
  rcases atBrace_cases g source tracker c with h | ⟨-, -, h | h⟩
  · simp only [List.mem_cons, List.not_mem_nil, or_false] at h
    rcases h with h | h | h <;>
    · rw [h]
      trivial
  · exact typeDecision?_isKinded h
  · rw [h]
    exact callableDecision_isKinded true c.tokens

/-- Where types are reported, a brace that opens a type has a symbol. -/
theorem atBrace_symbol?_of_isType (he : g.emitTypeSymbols = true)
    (ht : (c.atBrace g source tracker).isType = true) :
    ∃ x, (c.atBrace g source tracker).symbol? = some x := by
  rcases atBrace_cases g source tracker c with h | ⟨-, -, h | h⟩
  · simp only [List.mem_cons, List.not_mem_nil, or_false] at h
    rcases h with h | h | h <;>
    · rw [h] at ht
      cases ht
  · obtain ⟨header, -, hd⟩ := Option.map_eq_some_iff.mp h
    rw [← hd]
    simp only [if_pos he, Decision.symbol?]
    exact ⟨_, rfl⟩
  · rw [h, callableDecision_not_isType] at ht
    cases ht

theorem atSemicolon?_isKinded {d : Decision} (h : c.atSemicolon? g source tracker = some d) :
    d.IsKinded ∧ d.isType = false := by
  obtain ⟨-, -, rfl⟩ := atSemicolon?_cases h
  exact ⟨callableDecision_isKinded _ _, callableDecision_not_isType _ _⟩

/-- With the switch off, a brace opens the same, without the symbol of a type. -/
theorem atBrace_withTypeSymbols :
    c.atBrace (g.withTypeSymbols false) source tracker =
      (c.atBrace g source tracker).silenced := by
  simp only [Grammar.withTypeSymbols_eq, atBrace, typeDecision?, endsWithConstruction_withSettings,
    startsWithControl_withSettings, TypeHeader.ofRun?_withSettings, callableDecision_withSettings]
  split
  · rfl
  split
  · rfl
  split
  · rfl
  split
  · rfl
  · cases TypeHeader.ofRun? g c.tokens with
    | none =>
        exact (Decision.silenced_of_not_isType (callableDecision_not_isType true c.tokens)).symm
    | some h => rfl

end Candidate

namespace Scan

variable {g : Grammar} {source : String} {s u : Scan} {t : Token}

theorem decision?_isKinded {d : Decision} (hd : s.decision? g source t = some d) :
    d.IsKinded := by
  rcases decision?_cases hd with ⟨-, rfl⟩ | ⟨-, -, hd⟩
  · exact Candidate.atBrace_isKinded
  · exact (Candidate.atSemicolon?_isKinded hd).1

/-- Only a brace opens a type. -/
theorem decision?_not_isType (ho : t.isPunct '{' = false) {d : Decision}
    (hd : s.decision? g source t = some d) : d.isType = false := by
  rcases decision?_cases hd with ⟨ho', -⟩ | ⟨-, -, hd⟩
  · rw [ho] at ho'
    cases ho'
  · exact (Candidate.atSemicolon?_isKinded hd).2

/-- The second scan is the first one without the symbols of types. -/
structure InStep (s u : Scan) : Prop where
  recognizer : u.recognizer = s.recognizer
  outline : u.tracker.outline = s.tracker.outline
  stats : u.tracker.stats = s.tracker.stats
  symbols : u.table.toList = s.table.toList.filter fun x => decide (x.kind ≠ .type)
  diagnostics : u.diagnostics = s.diagnostics
  endLine : u.endLine = s.endLine

namespace InStep

theorem init : InStep {} {} := ⟨rfl, rfl, rfl, rfl, rfl, rfl⟩

/-- Scans in step are alike, as far as one grammar is concerned. -/
theorem alike (h : InStep s u) : Alike u s := ⟨h.recognizer, h.outline⟩

theorem depth_eq (h : InStep s u) : u.tracker.depth = s.tracker.depth := by
  rw [← ScopeTracker.outline_depth, h.outline, ScopeTracker.outline_depth]

/-- Scans in step decide the same, up to the symbols of types. -/
theorem decision?_eq (h : InStep s u) (g : Grammar) (source : String) (t : Token) :
    u.decision? (g.withTypeSymbols false) source t =
      (s.decision? g source t).map Decision.silenced := by
  rcases t.structural_cases with ho | hc | hs | hp
  · rw [decision?_of_opening ho, decision?_of_opening ho, Candidate.atBrace_withTypeSymbols,
      h.alike.atBrace_eq, h.recognizer, Option.map_some]
  · rw [decision?_of_closing hc, decision?_of_closing hc, Option.map_none]
  · rw [← h.alike.decision?_eq t, decision?_of_semicolon hs, decision?_of_semicolon hs,
      Recognizer.semicolon, Recognizer.semicolon, Grammar.withTypeSymbols_eq,
      Candidate.atSemicolon?_withSettings]
    by_cases hparen : u.recognizer.inParenGroup
    · rw [if_pos hparen, if_pos hparen, Option.map_none]
    · rw [if_neg hparen, if_neg hparen]
      -- what a semicolon decides has no type to silence
      cases hd : u.recognizer.candidate.atSemicolon? g source u.tracker with
      | none => rfl
      | some d =>
          have hd' := (Candidate.atSemicolon?_isKinded hd).2
          rw [Option.map_some, Decision.silenced_of_not_isType hd']
  · rw [decision?_of_plain hp, decision?_of_plain hp, Option.map_none]

theorem feed_symbols_eq (h : InStep s u) (t : Token) :
    (u.feed (g.withTypeSymbols false) source t).table.toList =
      (s.feed g source t).table.toList.filter fun x => decide (x.kind ≠ .type) := by
  rw [feed_symbols, feed_symbols, List.filter_append, h.symbols, symbol?, symbol?,
    h.decision?_eq g source t]
  cases hd : s.decision? g source t with
  | none => rfl
  | some d =>
      have hnew := Decision.symbol?_silenced (decision?_isKinded hd)
      rw [Option.map_some, Option.bind_some, Option.bind_some, hnew]

/-- Only an ambiguity leaves a diagnostic, and it is the same with and without types. -/
theorem record_diagnostics_eq (h : u.diagnostics = s.diagnostics) (d : Decision) :
    (u.record d.silenced).diagnostics = (s.record d).diagnostics := by
  cases d with
  | ambiguous name line reason =>
      show u.diagnostics.push _ = s.diagnostics.push _
      rw [h]
  | type name symbol => cases symbol <;> exact h
  | _ => exact h

theorem feed_opening (h : InStep s u) (ho : t.isPunct '{' = true) :
    InStep (s.feed g source t) (u.feed (g.withTypeSymbols false) source t) := by
  have hd := h.decision?_eq g source t
  rw [decision?_of_opening ho, decision?_of_opening ho, Option.map_some] at hd
  replace hd := Option.some.inj hd
  refine ⟨?recognizer, ?outline, ?stats, h.feed_symbols_eq t, ?diagnostics, ?endLine⟩
  case recognizer =>
    rw [feed_recognizer_of_opening ho, feed_recognizer_of_opening ho, Recognizer.openBrace,
      Recognizer.openBrace, h.recognizer, h.depth_eq]
  case outline =>
    have hopener : (u.opener (g.withTypeSymbols false) source).unindexed =
        (s.opener g source).unindexed := by
      rw [opener, opener, Recognizer.openBrace, Recognizer.openBrace, hd]
      exact Decision.openerOf_silenced _ _ _
    rw [feed_tracker_of_opening ho, feed_tracker_of_opening ho, ScopeTracker.push_outline,
      ScopeTracker.push_outline, hopener, h.outline]
  case stats =>
    rw [feed_tracker_of_opening ho, feed_tracker_of_opening ho, ScopeTracker.push,
      ScopeTracker.push, h.stats, h.depth_eq]
  case diagnostics =>
    rw [Scan.feed_opening ho, Scan.feed_opening ho]
    show (u.record (u.recognizer.candidate.atBrace _ source u.tracker)).diagnostics = _
    rw [hd]
    exact record_diagnostics_eq h.diagnostics _
  case endLine => rw [feed_endLine, feed_endLine, h.endLine]

/-- Either both scans have an open scope, or none of them has. -/
theorem pop?_cases (h : InStep s u) :
    (s.tracker.pop? = none ∧ u.tracker.pop? = none) ∨
      ∃ a b v w, s.tracker.pop? = some (a, v) ∧ u.tracker.pop? = some (b, w) ∧
        w.stats = v.stats := by
  have hlength : u.tracker.scopes.length = s.tracker.scopes.length := by
    have hmap := congrArg (fun o : ScopeTracker => o.scopes.length) h.outline
    simpa [ScopeTracker.outline] using hmap
  rw [ScopeTracker.pop?, ScopeTracker.pop?]
  cases hs : s.tracker.scopes with
  | nil =>
      have hu : u.tracker.scopes = [] := List.length_eq_zero_iff.mp (by rw [hlength, hs]; rfl)
      rw [hu]
      exact .inl ⟨rfl, rfl⟩
  | cons a rest =>
      obtain ⟨b, rest', hu⟩ : ∃ b rest', u.tracker.scopes = b :: rest' :=
        List.exists_cons_of_length_pos (by rw [hlength, hs]; exact Nat.succ_pos _)
      rw [hu]
      exact .inr ⟨_, _, _, _, rfl, rfl, by rw [h.stats]⟩

theorem feed_closing (h : InStep s u) (hc : t.isPunct '}' = true) :
    InStep (s.feed g source t) (u.feed (g.withTypeSymbols false) source t) := by
  have halike : Alike (u.feed g source t) (s.feed g source t) := h.alike.feed t
  have hgrammar : u.feed (g.withTypeSymbols false) source t = u.feed g source t := by
    rw [Scan.feed_closing hc, Scan.feed_closing hc]
  refine ⟨?recognizer, ?outline, ?stats, h.feed_symbols_eq t, ?diagnostics, ?endLine⟩
  case recognizer => rw [hgrammar, halike.1]
  case outline => rw [hgrammar, halike.2]
  -- whether a scope is open decides on the rest
  case stats =>
    rw [feed_tracker_of_closing hc, feed_tracker_of_closing hc]
    rcases h.pop?_cases with ⟨hs, hu⟩ | ⟨a, b, v, w, hs, hu, hstats⟩
    · rw [hs, hu]
      exact h.stats
    · rw [hs, hu]
      exact hstats
  case diagnostics =>
    rw [Scan.feed_closing hc, Scan.feed_closing hc, closeScope, closeScope]
    rcases h.pop?_cases with ⟨hs, hu⟩ | ⟨a, b, v, w, hs, hu, -⟩
    · rw [hs, hu]
      show u.diagnostics.push _ = s.diagnostics.push _
      rw [h.diagnostics]
    · rw [hs, hu]
      exact h.diagnostics
  case endLine => rw [feed_endLine, feed_endLine, h.endLine]

theorem feed_semicolon (h : InStep s u) (hs : t.isPunct ';' = true) :
    InStep (s.feed g source t) (u.feed (g.withTypeSymbols false) source t) := by
  have hb := Token.not_isBrace_of_semicolon hs
  have hd := h.decision?_eq g source t
  rw [decision?_of_semicolon hs, decision?_of_semicolon hs] at hd
  refine ⟨?recognizer, ?outline, ?stats, h.feed_symbols_eq t, ?diagnostics, ?endLine⟩
  case recognizer =>
    rw [feed_recognizer_of_semicolon hs, feed_recognizer_of_semicolon hs, Recognizer.semicolon,
      Recognizer.semicolon, h.recognizer]
    split <;> rfl
  case outline =>
    rw [feed_tracker_of_not_isBrace hb, feed_tracker_of_not_isBrace hb, h.outline]
  case stats => rw [feed_tracker_of_not_isBrace hb, feed_tracker_of_not_isBrace hb, h.stats]
  case diagnostics =>
    rw [Scan.feed_semicolon hs, Scan.feed_semicolon hs]
    show ((u.recognizer.semicolon _ source u.tracker t).1.elim u (u.record ·)).diagnostics =
      ((s.recognizer.semicolon _ source s.tracker t).1.elim s (s.record ·)).diagnostics
    rw [hd]
    cases (s.recognizer.semicolon g source s.tracker t).1 with
    | none => exact h.diagnostics
    | some d => exact record_diagnostics_eq h.diagnostics d
  case endLine => rw [feed_endLine, feed_endLine, h.endLine]

theorem feed_plain (h : InStep s u) (hp : t.isStructural = false) :
    InStep (s.feed g source t) (u.feed (g.withTypeSymbols false) source t) := by
  rw [Scan.feed_plain hp, Scan.feed_plain hp, h.recognizer, h.diagnostics, h.endLine]
  exact ⟨rfl, h.outline, h.stats, h.symbols, rfl, rfl⟩

/-- Scans in step stay so: the one reports types, the other does not. -/
theorem feed (h : InStep s u) (t : Token) :
    InStep (s.feed g source t) (u.feed (g.withTypeSymbols false) source t) := by
  rcases t.structural_cases with ho | hc | hs | hp
  · exact h.feed_opening ho
  · exact h.feed_closing hc
  · exact h.feed_semicolon hs
  · exact h.feed_plain hp

theorem run (h : InStep s u) (ts : List Token) :
    InStep (run g source ts s) (run (g.withTypeSymbols false) source ts u) := by
  induction ts generalizing s u with
  | nil => exact h
  | cons t ts ih => exact ih (h.feed t)

/-- At the end of the input both scans report the same. -/
theorem finish (h : InStep s u) : InStep s.finish u.finish := by
  have hopen : u.tracker.current?.map Scope.line = s.tracker.current?.map Scope.line := by
    have hmap := congrArg (fun o : ScopeTracker => o.scopes.head?.map Scope.line) h.outline
    simpa [ScopeTracker.outline, ScopeTracker.current?, Option.map_map, Function.comp_def,
      Scope.unindexed] using hmap
  unfold Scan.finish
  cases hs : s.tracker.current? with
  | none =>
      rw [hs, Option.map_none, Option.map_eq_none_iff] at hopen
      rw [hopen, h.recognizer]
      show InStep (if s.recognizer.inParenGroup then s.report _ _ _ else s)
        (if s.recognizer.inParenGroup then u.report _ _ _ else u)
      split
      · refine ⟨h.recognizer, h.outline, h.stats, h.symbols, ?_, h.endLine⟩
        show u.diagnostics.push _ = s.diagnostics.push _
        rw [h.diagnostics, h.endLine]
      · exact h
  | some a =>
      rw [hs, Option.map_some] at hopen
      obtain ⟨b, hu, hline⟩ := Option.map_eq_some_iff.mp hopen
      rw [hu]
      refine ⟨h.recognizer, rfl, ?_, h.symbols, ?_, h.endLine⟩
      · show u.tracker.closeAll.stats = s.tracker.closeAll.stats
        rw [ScopeTracker.closeAll, ScopeTracker.closeAll, h.stats, h.depth_eq]
      · show u.diagnostics.push _ = s.diagnostics.push _
        rw [h.diagnostics, h.endLine, hline, h.depth_eq]

end InStep

/-! ## The number of types -/

/-- The number of braces among the tokens that are decided to open a type. -/
def typeBraces (g : Grammar) (source : String) (ts : List Token) (s : Scan) : Nat :=
  (ts.zip (decisions g source ts s)).countP fun (t, d) => t.isPunct '{' && d.any Decision.isType

theorem typeBraces_cons (ts : List Token) :
    typeBraces g source (t :: ts) s =
      (if t.isPunct '{' && (s.decision? g source t).any Decision.isType then 1 else 0) +
        typeBraces g source ts (s.feed g source t) := by
  rw [typeBraces, decisions, List.zip_cons_cons, List.countP_cons, Nat.add_comm]
  rfl

/-- Where types are reported, each brace that opens one has a symbol of that kind, and nothing else
has. -/
theorem reported_types (he : g.emitTypeSymbols = true) (ts : List Token) :
    ((reported g source ts s).filter fun x => decide (x.kind = .type)).length =
      typeBraces g source ts s := by
  induction ts generalizing s with
  | nil => rfl
  | cons t ts ih =>
      rw [reported_cons, List.filter_append, List.length_append, ih, typeBraces_cons]
      congr 1
      rw [symbol?]
      cases hd : s.decision? g source t with
      | none => simp
      | some d =>
          have hkind : d.IsKinded := decision?_isKinded hd
          cases d with
          | type name symbol =>
              -- a type comes from a brace, and has its symbol
              have ho : t.isPunct '{' = true := by
                by_contra hne
                have := decision?_not_isType (by simpa using hne) hd
                cases this
              rw [decision?_of_opening ho] at hd
              have hty : (s.recognizer.candidate.atBrace g source s.tracker).isType = true := by
                rw [Option.some.inj hd]
                rfl
              obtain ⟨x, hx⟩ := Candidate.atBrace_symbol?_of_isType he hty
              rw [Option.some.inj hd] at hx
              obtain rfl : symbol = some x := hx
              have hx : x.kind = .type := hkind x rfl
              simp [ho, Decision.symbol?, Decision.isType, hx]
          | declaration x =>
              have hx : x.kind ≠ .type := hkind
              simp [Decision.symbol?, Decision.isType, hx]
          | _ => simp [Decision.symbol?, Decision.isType]

/-- With types silenced, the same braces open them. -/
theorem typeBraces_withTypeSymbols (h : InStep s u) (ts : List Token) :
    typeBraces (g.withTypeSymbols false) source ts u = typeBraces g source ts s := by
  induction ts generalizing s u with
  | nil => rfl
  | cons t ts ih =>
      have hany : ((s.decision? g source t).map Decision.silenced).any Decision.isType =
          (s.decision? g source t).any Decision.isType := by
        cases s.decision? g source t with
        | none => rfl
        | some d => exact Decision.isType_silenced d
      rw [typeBraces_cons, typeBraces_cons, ih (h.feed t), h.decision?_eq g source t, hany]

end Scan

/-! ## The switch -/

/-- **Reporting types only adds their symbols.** Without its types, what is found with the switch on
is what is found with it off, with the same diagnostics and counts; and the types are as many as
the braces that either scan decides to open one. -/
theorem type_symbols_only_added (g : Grammar) (source : List Char) :
    let on := scan (g.withTypeSymbols true) source
    let off := scan (g.withTypeSymbols false) source
    (on.symbols.filter fun x => decide (x.kind ≠ .type)) = off.symbols ∧
    on.diagnostics = off.diagnostics ∧
    on.stats = off.stats ∧
    ∀ emit, (on.symbols.filter fun x => decide (x.kind = .type)).length =
      Scan.typeBraces (g.withTypeSymbols emit) (String.ofList source)
        (tokensOf (g.withTypeSymbols emit) source) {} := by
  intro on off
  -- the grammar with the switch off is the other one, silenced
  have hoff : (g.withTypeSymbols true).withTypeSymbols false = g.withTypeSymbols false := rfl
  have hstep : Scan.InStep
      (Scan.run (g.withTypeSymbols true) (String.ofList source) (tokensOf g source) {}).finish
      (Scan.run (g.withTypeSymbols false) (String.ofList source) (tokensOf g source) {}).finish :=
    hoff ▸ (Scan.InStep.init.run _).finish
  have hon : on = (Scan.run (g.withTypeSymbols true) (String.ofList source)
      (tokensOf g source) {}).finish.result := by
    show scan _ source = _
    rw [scan_eq, tokensOf_withTypeSymbols]
    rfl
  have hoff' : off = (Scan.run (g.withTypeSymbols false) (String.ofList source)
      (tokensOf g source) {}).finish.result := by
    show scan _ source = _
    rw [scan_eq, tokensOf_withTypeSymbols]
    rfl
  have hcount : (on.symbols.filter fun x => decide (x.kind = .type)).length =
      Scan.typeBraces (g.withTypeSymbols true) (String.ofList source) (tokensOf g source) {} := by
    show ((scan _ source).symbols.filter _).length = _
    rw [scan_symbols, tokensOf_withTypeSymbols, Scan.reported_types rfl]
  refine ⟨?symbols, ?diagnostics, ?stats, ?types⟩
  case symbols =>
    rw [hon, hoff']
    exact hstep.symbols.symm
  case diagnostics =>
    rw [hon, hoff']
    exact congrArg Array.toList hstep.diagnostics.symm
  case stats =>
    rw [hon, hoff']
    exact hstep.stats.symm
  case types =>
    intro emit
    rw [hcount, tokensOf_withTypeSymbols]
    cases emit with
    | true => rfl
    | false =>
        rw [← hoff]
        exact (Scan.typeBraces_withTypeSymbols Scan.InStep.init _).symm

end DeclTags
