import DeclTags.Scan

set_option autoImplicit false

/-! # What one token does to a scan

`Scan.feed` looks at the kind of a token. Here its effect is said once for each part of the scan:
the tracker changes at braces only, the recognizer at every token, and the table and the
diagnostics where something is decided (`Scan.decision?`) or malformed. Later modules cite these
equations and do not open `Scan.feed` again. Of a decision they cite which header made it:
`Scan.decision?_cases`, then `Candidate.atBrace_cases` or `Candidate.atSemicolon?_cases`.

`Scan.run` feeds a list of tokens, and `Scan.decisions` is what is decided on the way.
-/

namespace DeclTags

/-! ## Tokens that carry structure -/

namespace Token

theorem isPunct_iff {t : Token} {c : Char} : t.isPunct c = true ↔ t.kind = .punctuation c := by
  simp [isPunct]

/-- Two punctuation characters are not one. -/
theorem not_isPunct_of_ne {t : Token} {c d : Char} (h : t.isPunct c = true) (hne : c ≠ d) :
    t.isPunct d = false := by
  rw [isPunct_iff] at h
  simp [isPunct, h, hne]

/-- A word is no punctuation. -/
theorem not_isPunct_of_isWord {t : Token} (h : t.isWord = true) (c : Char) :
    t.isPunct c = false := by
  rw [isWord, isIdentifier, isKeyword, Bool.or_eq_true, beq_iff_eq, beq_iff_eq] at h
  rcases h with h | h <;> simp [isPunct, h]

theorem isWord_of_isIdentifier {t : Token} (h : t.isIdentifier = true) : t.isWord = true := by
  simp [isWord, h]

theorem not_isPunct_of_isIdentifier {t : Token} (h : t.isIdentifier = true) (c : Char) :
    t.isPunct c = false := not_isPunct_of_isWord (isWord_of_isIdentifier h) c

theorem isWord_of_isKeyword {t : Token} (h : t.isKeyword = true) : t.isWord = true := by
  simp [isWord, h]

theorem not_isKeyword_of_isIdentifier {t : Token} (h : t.isIdentifier = true) :
    t.isKeyword = false := by
  rw [isIdentifier, beq_iff_eq] at h
  simp [isKeyword, h]

theorem not_isKeyword_of_isPunct {t : Token} {c : Char} (h : t.isPunct c = true) :
    t.isKeyword = false := by
  rw [isPunct_iff] at h
  simp [isKeyword, h]

/-- A brace. -/
def isBrace (t : Token) : Bool := t.isPunct '{' || t.isPunct '}'

/-- A brace or a semicolon: the tokens at which something is decided or closed. -/
def isStructural (t : Token) : Bool := t.isBrace || t.isPunct ';'

theorem structural_cases (t : Token) :
    t.isPunct '{' = true ∨ t.isPunct '}' = true ∨ t.isPunct ';' = true ∨
      t.isStructural = false := by
  simp only [isStructural, isBrace]
  cases t.isPunct '{' <;> cases t.isPunct '}' <;> cases t.isPunct ';' <;> simp

theorem not_isBrace_of_not_structural {t : Token} (h : t.isStructural = false) :
    t.isBrace = false := by
  simp only [isStructural, Bool.or_eq_false_iff] at h
  exact h.1

theorem not_isBrace_of_semicolon {t : Token} (h : t.isPunct ';' = true) : t.isBrace = false := by
  simp [isBrace, not_isPunct_of_ne h]

theorem not_isPunct_of_not_isBrace {t : Token} (h : t.isBrace = false) :
    t.isPunct '{' = false ∧ t.isPunct '}' = false := by
  simpa [isBrace] using h

end Token

/-! ## What a decision leaves behind -/

/-- The symbol that a decision reports. -/
def Decision.symbol? : Decision → Option Symbol
  | .declaration symbol => some symbol
  | .type _ symbol => symbol
  | _ => none

namespace Candidate

variable {g : Grammar} {source : String} {tracker : ScopeTracker} {c : Candidate} {x : Symbol}

/-- What a brace opens names nothing, or the header of a type and else that of a callable decides
it, the candidate having not too many tokens and standing in no parentheses. -/
theorem atBrace_eq_getD (g : Grammar) (source : String) (tracker : ScopeTracker) (c : Candidate) :
    c.atBrace g source tracker ∈ [.unknown, .anonymousClass, .controlBlock] ∨
      c.overflowed = false ∧ c.parenDepth = 0 ∧
        c.atBrace g source tracker = (c.typeDecision? g source tracker c.tokens).getD
          (c.callableDecision g source tracker true c.tokens) := by
  unfold atBrace
  split
  · exact .inl (by simp)
  next hflow =>
  split
  · exact .inl (by simp)
  split
  · exact .inl (by simp)
  next hdepth =>
  simp only
  split
  · exact .inl (by simp)
  simp only [Bool.or_eq_true, not_or, Bool.not_eq_true] at hflow
  exact .inr ⟨hflow.1, Nat.eq_zero_of_not_pos hdepth, rfl⟩

/-- The same, by the header that decides. -/
theorem atBrace_cases (g : Grammar) (source : String) (tracker : ScopeTracker) (c : Candidate) :
    c.atBrace g source tracker ∈ [.unknown, .anonymousClass, .controlBlock] ∨
      c.overflowed = false ∧ c.parenDepth = 0 ∧
        (c.typeDecision? g source tracker c.tokens = some (c.atBrace g source tracker) ∨
          c.atBrace g source tracker = c.callableDecision g source tracker true c.tokens) := by
  refine (atBrace_eq_getD g source tracker c).imp_right fun ⟨hflow, hdepth, hd⟩ => ?_
  refine ⟨hflow, hdepth, ?_⟩
  rw [hd]
  cases c.typeDecision? g source tracker c.tokens with
  | none => exact .inr rfl
  | some d => exact .inl rfl

/-- A symbol that is reported at a brace is that of a type's header or of a callable's. -/
theorem atBrace_symbol?_cases (hx : (c.atBrace g source tracker).symbol? = some x) :
    c.overflowed = false ∧ c.parenDepth = 0 ∧
      (c.typeDecision? g source tracker c.tokens = some (c.atBrace g source tracker) ∨
        (c.callableDecision g source tracker true c.tokens).symbol? = some x) := by
  rcases atBrace_cases g source tracker c with hd | ⟨hflow, hdepth, hd⟩
  · simp only [List.mem_cons, List.not_mem_nil, or_false] at hd
    rcases hd with hd | hd | hd <;>
    · rw [hd] at hx
      cases hx
  · refine ⟨hflow, hdepth, hd.imp_right fun hcall => ?_⟩
    rw [← hcall]
    exact hx

/-- What a semicolon decides is decided by the header of a callable, directly in a type. -/
theorem atSemicolon?_cases {d : Decision} (h : c.atSemicolon? g source tracker = some d) :
    tracker.directlyInType = true ∧ c.overflowed = false ∧
      d = c.callableDecision g source tracker (c.member g).2 (c.member g).1 := by
  unfold atSemicolon? at h
  split at h
  · next hmay =>
    simp only [mayBeMember, Bool.and_eq_true, Bool.not_eq_true'] at hmay
    refine ⟨hmay.1.1.2, hmay.1.2, ?_⟩
    simp only at h
    split at h
    · next hd => rw [← Option.some.inj h, hd]
    · next hd => rw [← Option.some.inj h, hd]
    · cases h
  · cases h

end Candidate

namespace Scan

variable {g : Grammar} {source : String} {s : Scan} {t : Token}

@[simp] theorem report_recognizer (kind : DiagnosticKind) (line : Nat) (message : String) :
    (s.report kind line message).recognizer = s.recognizer := rfl

@[simp] theorem report_tracker (kind : DiagnosticKind) (line : Nat) (message : String) :
    (s.report kind line message).tracker = s.tracker := rfl

@[simp] theorem report_table (kind : DiagnosticKind) (line : Nat) (message : String) :
    (s.report kind line message).table = s.table := rfl

@[simp] theorem report_endLine (kind : DiagnosticKind) (line : Nat) (message : String) :
    (s.report kind line message).endLine = s.endLine := rfl

@[simp] theorem report_diagnostics (kind : DiagnosticKind) (line : Nat) (message : String) :
    (s.report kind line message).diagnostics.toList =
      s.diagnostics.toList ++ [.ofKind kind line message] := by
  simp [report]

@[simp] theorem record_recognizer (d : Decision) : (s.record d).recognizer = s.recognizer := by
  unfold record
  split <;> rfl

@[simp] theorem record_tracker (d : Decision) : (s.record d).tracker = s.tracker := by
  unfold record
  split <;> rfl

@[simp] theorem record_endLine (d : Decision) : (s.record d).endLine = s.endLine := by
  unfold record
  split <;> rfl

@[simp] theorem elim_record_tracker (d : Option Decision) :
    (d.elim s (s.record ·)).tracker = s.tracker := by
  cases d <;> simp

@[simp] theorem elim_record_endLine (d : Option Decision) :
    (d.elim s (s.record ·)).endLine = s.endLine := by
  cases d <;> simp

/-- A decision adds its symbol to the table. -/
theorem record_table (d : Decision) :
    (s.record d).table.toList = s.table.toList ++ d.symbol?.toList := by
  cases d with
  | type name symbol => cases symbol <;> simp [record, Decision.symbol?]
  | _ => simp [record, Decision.symbol?]

/-- The only diagnostic of a decision is that of an ambiguity. -/
theorem record_diagnostics (d : Decision) :
    ∃ new : List Diagnostic, (s.record d).diagnostics.toList = s.diagnostics.toList ++ new ∧
      ∀ e ∈ new, e.kind = .ambiguity := by
  cases d with
  | ambiguous name line reason =>
      exact ⟨[_], report_diagnostics _ _ _, by simp [Diagnostic.ofKind]⟩
  | type name symbol => cases symbol <;> exact ⟨[], by simp [record], by simp⟩
  | _ => exact ⟨[], by simp [record], by simp⟩

/-! ## The four kinds of steps -/

theorem feed_opening (h : t.isPunct '{' = true) : s.feed g source t = s.openScope g source t := by
  rw [Token.isPunct_iff] at h
  simp [feed, h]

theorem feed_closing (h : t.isPunct '}' = true) : s.feed g source t = s.closeScope t := by
  rw [Token.isPunct_iff] at h
  simp [feed, h]

theorem feed_semicolon (h : t.isPunct ';' = true) :
    s.feed g source t = s.semicolon g source t := by
  rw [Token.isPunct_iff] at h
  simp [feed, h]

/-- What is reported of a token that carries no structure: a comment or literal without its end. -/
def openEnd? (t : Token) : Option Diagnostic :=
  if t.terminated then none
  else
    match t.kind with
    | .blockComment => some (.ofKind .unterminatedComment t.line openCommentMessage)
    | .stringLiteral | .charLiteral =>
      some (.ofKind .unterminatedString t.line (openLiteralMessage t.kind))
    | _ => none

/-- The line on which the input ends, as far as the token tells. -/
def endLineAfter (t : Token) (line : Nat) : Nat := if t.kind = .endOfInput then t.line else line

/-- A token without structure is observed, and reported if its end is missing. -/
theorem feed_plain (h : t.isStructural = false) :
    s.feed g source t =
      { s with
        recognizer := s.recognizer.observe g t
        diagnostics := (openEnd? t).elim s.diagnostics s.diagnostics.push
        endLine := endLineAfter t s.endLine } := by
  simp only [Token.isStructural, Token.isBrace, Token.isPunct, Bool.or_eq_false_iff,
    beq_eq_false_iff_ne] at h
  obtain ⟨⟨ho, hc⟩, hs⟩ := h
  cases hk : t.kind with
  | punctuation c =>
      simp_all [feed, observe, openEnd?, endLineAfter]
  | endOfInput => simp [feed, hk, openEnd?, endLineAfter, Recognizer.observe]
  | blockComment =>
      cases ht : t.terminated <;> simp [feed, hk, ht, openEnd?, endLineAfter, observe, report]
  | stringLiteral =>
      cases ht : t.terminated <;> simp [feed, hk, ht, openEnd?, endLineAfter, observe, report]
  | charLiteral =>
      cases ht : t.terminated <;> simp [feed, hk, ht, openEnd?, endLineAfter, observe, report]
  | _ => simp [feed, hk, openEnd?, endLineAfter, observe]

/-- Of the end of the input, only its line is kept. -/
theorem feed_endOfInput (h : t.kind = .endOfInput) :
    s.feed g source t = { s with endLine := t.line } := by
  rw [feed, h]

/-! ## The tracker and the recognizer after a token -/

/-- The opener that the next brace gets. -/
def opener (g : Grammar) (source : String) (s : Scan) : Opener :=
  openerOf s.table.size (s.recognizer.openBrace g source s.tracker).1

theorem feed_tracker_of_opening (h : t.isPunct '{' = true) :
    (s.feed g source t).tracker = s.tracker.push (s.opener g source) t.line t.start := by
  rw [feed_opening h]
  rfl

theorem feed_tracker_of_closing (h : t.isPunct '}' = true) :
    (s.feed g source t).tracker = (s.tracker.pop?).elim s.tracker (·.2) := by
  rw [feed_closing h, closeScope]
  cases s.tracker.pop? <;> simp

theorem feed_tracker_of_not_isBrace (h : t.isBrace = false) :
    (s.feed g source t).tracker = s.tracker := by
  rcases t.structural_cases with ho | hc | hs | hp
  · simp [Token.isBrace, ho] at h
  · simp [Token.isBrace, hc] at h
  · rw [feed_semicolon hs]
    exact elim_record_tracker (s := s) _
  · rw [feed_plain hp]

theorem feed_recognizer_of_opening (h : t.isPunct '{' = true) :
    (s.feed g source t).recognizer = (s.recognizer.openBrace g source s.tracker).2 := by
  rw [feed_opening h]
  rfl

theorem feed_recognizer_of_closing (h : t.isPunct '}' = true) :
    (s.feed g source t).recognizer =
      s.recognizer.closeBrace (s.tracker.pop?.map (·.1.depth)) := by
  rw [feed_closing h, closeScope]
  cases s.tracker.pop? <;> simp

theorem feed_recognizer_of_semicolon (h : t.isPunct ';' = true) :
    (s.feed g source t).recognizer = (s.recognizer.semicolon g source s.tracker t).2 := by
  rw [feed_semicolon h]
  rfl

theorem feed_recognizer_of_plain (h : t.isStructural = false) :
    (s.feed g source t).recognizer = s.recognizer.observe g t := by
  rw [feed_plain h]

/-! ## What is decided at a token -/

/-- The decision at a token: at an opening brace always, at a semicolon perhaps. -/
def decision? (g : Grammar) (source : String) (s : Scan) (t : Token) : Option Decision :=
  if t.isPunct '{' then some (s.recognizer.openBrace g source s.tracker).1
  else if t.isPunct ';' then (s.recognizer.semicolon g source s.tracker t).1
  else none

theorem decision?_of_opening (h : t.isPunct '{' = true) :
    s.decision? g source t = some (s.recognizer.candidate.atBrace g source s.tracker) := by
  simp [decision?, h, Recognizer.openBrace]

theorem decision?_of_semicolon (h : t.isPunct ';' = true) :
    s.decision? g source t = (s.recognizer.semicolon g source s.tracker t).1 := by
  simp [decision?, h, Token.not_isPunct_of_ne h]

theorem decision?_of_closing (h : t.isPunct '}' = true) : s.decision? g source t = none := by
  simp [decision?, Token.not_isPunct_of_ne h]

theorem decision?_of_plain (h : t.isStructural = false) : s.decision? g source t = none := by
  have hs : t.isPunct ';' = false := by simp_all [Token.isStructural]
  have ho := (Token.not_isPunct_of_not_isBrace (Token.not_isBrace_of_not_structural h)).1
  simp [decision?, ho, hs]

/-- The candidate decides, at an opening brace, or at a semicolon outside of parentheses. -/
theorem decision?_cases {d : Decision} (hd : s.decision? g source t = some d) :
    (t.isPunct '{' = true ∧ d = s.recognizer.candidate.atBrace g source s.tracker) ∨
      (t.isPunct ';' = true ∧ s.recognizer.inParenGroup = false ∧
        s.recognizer.candidate.atSemicolon? g source s.tracker = some d) := by
  rcases t.structural_cases with ho | hc | hs | hp
  · rw [decision?_of_opening ho] at hd
    exact .inl ⟨ho, (Option.some.inj hd).symm⟩
  · rw [decision?_of_closing hc] at hd
    cases hd
  · rw [decision?_of_semicolon hs, Recognizer.semicolon] at hd
    split at hd
    · cases hd
    · next hparen => exact .inr ⟨hs, Bool.eq_false_iff.mpr hparen, hd⟩
  · rw [decision?_of_plain hp] at hd
    cases hd

/-- The table after a token is that after the token's decision. -/
theorem feed_table :
    (s.feed g source t).table = ((s.decision? g source t).elim s (s.record ·)).table := by
  rcases t.structural_cases with ho | hc | hs | hp
  · rw [feed_opening ho, decision?_of_opening ho]
    rfl
  · rw [feed_closing hc, decision?_of_closing hc, closeScope]
    cases s.tracker.pop? <;> simp
  · rw [feed_semicolon hs, decision?_of_semicolon hs]
    rfl
  · rw [feed_plain hp, decision?_of_plain hp]
    rfl

/-- The symbol that is reported at a token. -/
def symbol? (g : Grammar) (source : String) (s : Scan) (t : Token) : Option Symbol :=
  (s.decision? g source t).bind Decision.symbol?

theorem feed_symbols :
    (s.feed g source t).table.toList = s.table.toList ++ (s.symbol? g source t).toList := by
  rw [feed_table, symbol?]
  cases s.decision? g source t with
  | none => simp
  | some d => exact record_table d

/-! ## Runs -/

/-- The scan after some more tokens. -/
def run (g : Grammar) (source : String) (ts : List Token) (s : Scan) : Scan :=
  ts.foldl (feed g source) s

@[simp] theorem run_nil : run g source [] s = s := rfl

@[simp] theorem run_cons (ts : List Token) :
    run g source (t :: ts) s = run g source ts (s.feed g source t) := rfl

@[simp] theorem run_append (ts us : List Token) :
    run g source (ts ++ us) s = run g source us (run g source ts s) :=
  List.foldl_append

/-- What is decided at each of some tokens, one after another. -/
def decisions (g : Grammar) (source : String) : List Token → Scan → List (Option Decision)
  | [], _ => []
  | t :: ts, s => s.decision? g source t :: decisions g source ts (s.feed g source t)

/-- The symbols that are reported at some tokens. -/
def reported (g : Grammar) (source : String) (ts : List Token) (s : Scan) : List Symbol :=
  (decisions g source ts s).filterMap (·.bind Decision.symbol?)

@[simp] theorem reported_nil : reported g source [] s = [] := rfl

theorem reported_cons (ts : List Token) :
    reported g source (t :: ts) s =
      (s.symbol? g source t).toList ++ reported g source ts (s.feed g source t) := by
  rw [reported, decisions, List.filterMap_cons, symbol?, reported]
  cases (s.decision? g source t).bind Decision.symbol? <;> rfl

theorem reported_append (ts us : List Token) :
    reported g source (ts ++ us) s =
      reported g source ts s ++ reported g source us (run g source ts s) := by
  induction ts generalizing s with
  | nil => rfl
  | cons t ts ih => rw [List.cons_append, reported_cons, reported_cons, ih, List.append_assoc,
      run_cons]

/-- A run adds to the table what is reported on the way, in that order. -/
theorem run_symbols (ts : List Token) :
    (run g source ts s).table.toList = s.table.toList ++ reported g source ts s := by
  -- the table grows at its end, so the induction goes over the tokens with the scan free
  induction ts generalizing s with
  | nil => simp
  | cons t ts ih => rw [run_cons, ih, feed_symbols, reported_cons, List.append_assoc]

/-- The end of the input reports no symbol. -/
@[simp] theorem finish_table : s.finish.table = s.table := by
  unfold finish
  split
  · rfl
  · split <;> rfl

@[simp] theorem finish_endLine : s.finish.endLine = s.endLine := by
  unfold finish
  split
  · rfl
  · split <;> rfl

end Scan

/-- The symbols of a scan are those reported at its tokens. -/
theorem scan_symbols (g : Grammar) (source : List Char) :
    (scan g source).symbols =
      Scan.reported g (String.ofList source) (tokensOf g source) {} := by
  have h : ({} : Scan).table.toList = [] := rfl
  rw [scan_eq, Scan.result, Scan.finish_table]
  exact (Scan.run_symbols _).trans (by rw [h, List.nil_append])

end DeclTags
