import DeclTags.Proofs.Nesting

set_option autoImplicit false

/-! # Comments and white space

White space and comments take no part in what is decided. They leave a scan as it is, but for the
comment that it keeps for the next declaration, and for a report of a comment without its end. So
without doc comments and without those reports, a scan of some tokens is a scan of their code tokens
(`Scan.run_undocumented`). The end of the input is no code either; it leaves but its line.

All definitions here forget the doc comments of something, and the lemmas say that what is done next
does not depend on them: each operation commutes with forgetting.
-/

namespace DeclTags

/-- White space, line ends and comments. -/
def Token.isFiller (t : Token) : Bool := t.kind.isBlank || t.kind.isComment

theorem Token.not_structural_of_isFiller {t : Token} (h : t.isFiller = true) :
    t.isStructural = false := by
  have hpunct : ∀ c, t.isPunct c = false := fun c => by
    refine Bool.eq_false_iff.mpr fun hc => ?_
    rw [isPunct_iff] at hc
    rw [isFiller, hc] at h
    cases h
  simp only [isStructural, isBrace, hpunct, Bool.or_false]

/-- The tokens without white space and comments, and without that of the end of the input. -/
def codeTokens (ts : List Token) : List Token :=
  ts.filter fun t => !t.isFiller && t.kind ≠ .endOfInput

def Symbol.undocumented (x : Symbol) : Symbol := { x with docComment := none }

namespace Decision

def undocumented : Decision → Decision
  | .declaration symbol => .declaration symbol.undocumented
  | .type name symbol => .type name (symbol.map Symbol.undocumented)
  | d => d

end Decision

/-! ## Candidates -/

namespace Candidate

variable {g : Grammar} {source : String} {tracker : ScopeTracker} {c : Candidate}

def undocumented (c : Candidate) : Candidate := { c with doc := none }

theorem add_undocumented (limit : Nat) (t : Token) (c : Candidate) :
    c.undocumented.add limit t = (c.add limit t).undocumented := by
  unfold add undocumented
  simp only
  split <;> rfl

theorem typeDecision?_undocumented (run : List Token) :
    c.undocumented.typeDecision? g source tracker run =
      (c.typeDecision? g source tracker run).map Decision.undocumented := by
  unfold typeDecision?
  rw [Option.map_map]
  refine congrArg (Option.map · _) (funext fun header => ?_)
  simp only [Function.comp_apply, Decision.undocumented]
  split <;> rfl

theorem callableDecision_undocumented (withBody : Bool) (run : List Token) :
    c.undocumented.callableDecision g source tracker withBody run =
      (c.callableDecision g source tracker withBody run).undocumented := by
  unfold callableDecision
  cases CallableHeader.ofRun? g withBody run with
  | none => rfl
  | some header =>
      simp only
      cases header.kind? g tracker.enclosingType? withBody with
      | none => rfl
      | some kind =>
          simp only
          cases header.callReason? g <;> rfl

theorem atBrace_undocumented :
    c.undocumented.atBrace g source tracker = (c.atBrace g source tracker).undocumented := by
  have hoverflowed : c.undocumented.overflowed = c.overflowed := rfl
  have hempty : c.undocumented.isEmpty = c.isEmpty := rfl
  have hback : c.undocumented.back = c.back := rfl
  have hdepth : c.undocumented.parenDepth = c.parenDepth := rfl
  have htokens : c.undocumented.tokens = c.tokens := rfl
  unfold atBrace
  rw [hoverflowed, hempty, hback, hdepth, htokens]
  split
  · rfl
  · split
    · rfl
    · split
      · rfl
      · simp only
        split
        · rfl
        · rw [typeDecision?_undocumented, callableDecision_undocumented]
          cases c.typeDecision? g source tracker c.tokens <;> rfl

theorem atSemicolon?_undocumented :
    c.undocumented.atSemicolon? g source tracker =
      (c.atSemicolon? g source tracker).map Decision.undocumented := by
  have hmember : c.undocumented.member g = c.member g := rfl
  have hmay : c.undocumented.mayBeMember g tracker = c.mayBeMember g tracker := rfl
  unfold atSemicolon?
  rw [hmember, hmay]
  split
  · simp only [callableDecision_undocumented]
    cases c.callableDecision g source tracker (c.member g).2 (c.member g).1 <;> rfl
  · rfl

end Candidate

/-! ## Recognizers -/

namespace Recognizer

variable {g : Grammar} {source : String} {tracker : ScopeTracker} {r : Recognizer} {t : Token}

def undocumented (r : Recognizer) : Recognizer where
  candidate := r.candidate.undocumented
  suspended := r.suspended.map fun w => ⟨w.depth, w.candidate.undocumented⟩

theorem extend_undocumented :
    r.undocumented.extend g t = (r.extend g t).undocumented := by
  have hempty : r.undocumented.candidate.isEmpty = r.candidate.isEmpty := rfl
  unfold extend
  rw [hempty]
  split
  · have hadd := Candidate.add_undocumented g.maxCandidateTokens t
      { r.candidate with doc := r.pendingDoc }
    simp only [undocumented, ← hadd]
    rfl
  · simp only [undocumented, ← Candidate.add_undocumented]

/-- Of a filler no more is kept than a comment. -/
theorem observe_filler (h : t.isFiller = true) :
    (r.observe g t).undocumented = r.undocumented := by
  unfold observe
  cases hk : t.kind with
  | blockComment =>
      simp only
      split <;> rfl
  | blank => rfl
  | newline => rfl
  | lineComment => rfl
  | _ => simp [Token.isFiller, hk, TokenKind.isBlank, TokenKind.isComment] at h

theorem observe_undocumented (h : t.isFiller = false) :
    r.undocumented.observe g t = (r.observe g t).undocumented := by
  unfold observe
  cases hk : t.kind with
  | blockComment => simp [Token.isFiller, hk, TokenKind.isComment] at h
  | blank => rfl
  | newline => rfl
  | lineComment => rfl
  | endOfInput => rfl
  | _ => exact extend_undocumented

theorem openBrace_undocumented :
    r.undocumented.openBrace g source tracker =
      ((r.openBrace g source tracker).1.undocumented,
        (r.openBrace g source tracker).2.undocumented) := by
  have hparen : r.undocumented.inParenGroup = r.inParenGroup := rfl
  unfold openBrace
  refine Prod.ext Candidate.atBrace_undocumented ?_
  simp only [hparen]
  split <;> rfl

theorem closeBrace_undocumented (closed : Option Nat) :
    r.undocumented.closeBrace closed = (r.closeBrace closed).undocumented := by
  unfold closeBrace
  cases closed with
  | none => rfl
  | some depth =>
      have hdrop : r.undocumented.suspended.dropWhile (fun s => depth < s.depth) =
          (r.suspended.dropWhile fun s => depth < s.depth).map
            fun w => ⟨w.depth, w.candidate.undocumented⟩ := by
        rw [undocumented, List.dropWhile_map]
        rfl
      simp only [hdrop]
      cases r.suspended.dropWhile fun s => depth < s.depth with
      | nil => rfl
      | cons w outer =>
          simp only [List.map_cons]
          split <;> rfl

theorem semicolon_undocumented (h : t.isFiller = false) :
    r.undocumented.semicolon g source tracker t =
      ((r.semicolon g source tracker t).1.map Decision.undocumented,
        (r.semicolon g source tracker t).2.undocumented) := by
  have hparen : r.undocumented.inParenGroup = r.inParenGroup := rfl
  unfold semicolon
  rw [hparen]
  split
  · exact Prod.ext rfl (observe_undocumented h)
  · exact Prod.ext Candidate.atSemicolon?_undocumented rfl

end Recognizer

/-! ## Scans -/

namespace Scan

variable {g : Grammar} {source : String} {s : Scan} {t : Token}

/-- The scan without doc comments, and without the reports of comments that lack their end. -/
def undocumented (s : Scan) : Scan where
  recognizer := s.recognizer.undocumented
  tracker := s.tracker
  table := ⟨s.table.symbols.map Symbol.undocumented⟩
  diagnostics := s.diagnostics.filter (·.kind ≠ .unterminatedComment)
  endLine := s.endLine

theorem undocumented_init : ({} : Scan).undocumented = {} := by
  simp [undocumented, Recognizer.undocumented, Candidate.undocumented]

theorem report_undocumented {kind : DiagnosticKind} (h : kind ≠ .unterminatedComment)
    (line : Nat) (message : String) :
    s.undocumented.report kind line message = (s.report kind line message).undocumented := by
  simp [report, undocumented, Diagnostic.ofKind, h]

theorem record_undocumented (d : Decision) :
    s.undocumented.record d.undocumented = (s.record d).undocumented := by
  have hpush : ∀ x : Symbol,
      (⟨s.table.symbols.map Symbol.undocumented⟩ : SymbolTable).append x.undocumented =
        ⟨(s.table.append x).symbols.map Symbol.undocumented⟩ := fun x => by
    rw [SymbolTable.append, SymbolTable.append, Array.map_push]
  cases d with
  | declaration symbol =>
      simp only [Decision.undocumented, record, undocumented, hpush]
  | type name symbol =>
      cases symbol with
      | none => rfl
      | some symbol =>
          simp only [Decision.undocumented, record, undocumented, Option.map_some, hpush]
  | ambiguous name line reason =>
      exact report_undocumented DiagnosticKind.noConfusion line _
  | _ => rfl

/-- Of all tokens whose end may be missing, only comments are fillers. -/
theorem openEnd?_kind_eq_iff {e : Diagnostic} (h : openEnd? t = some e) :
    e.kind = .unterminatedComment ↔ t.isFiller = true := by
  unfold openEnd? at h
  unfold Token.isFiller
  split at h
  · cases h
  · split at h
    · next hk =>
      cases h
      rw [hk]
      exact iff_of_true rfl rfl
    · next hk =>
      cases h
      rw [hk]
      exact iff_of_false DiagnosticKind.noConfusion Bool.false_ne_true
    · next hk =>
      cases h
      rw [hk]
      exact iff_of_false DiagnosticKind.noConfusion Bool.false_ne_true
    · cases h

/-- White space and comments are forgotten. -/
theorem feed_filler (h : t.isFiller = true) :
    (s.feed g source t).undocumented = s.undocumented := by
  have hline : endLineAfter t s.endLine = s.endLine := by
    refine if_neg fun hk => ?_
    rw [Token.isFiller, hk] at h
    cases h
  have hreports : ((openEnd? t).elim s.diagnostics s.diagnostics.push).filter
      (·.kind ≠ .unterminatedComment) = s.diagnostics.filter (·.kind ≠ .unterminatedComment) := by
    cases he : openEnd? t with
    | none => rfl
    | some e => simp [(openEnd?_kind_eq_iff he).mpr h]
  rw [feed_plain (Token.not_structural_of_isFiller h), undocumented, hline, hreports,
    Recognizer.observe_filler h, undocumented]

/-- Every other token does what it does, doc comments or not. -/
theorem feed_undocumented (h : t.isFiller = false) :
    s.undocumented.feed g source t = (s.feed g source t).undocumented := by
  have hr : s.undocumented.recognizer = s.recognizer.undocumented := rfl
  have htracker : s.undocumented.tracker = s.tracker := rfl
  rcases t.structural_cases with ho | hc | hs | hp
  · have hsize : s.undocumented.table.size = s.table.size := Array.size_map
    have hopener : ∀ d : Decision, openerOf s.table.size d.undocumented =
        openerOf s.table.size d := fun d => by
      cases d with
      | type name symbol => cases symbol <;> rfl
      | _ => rfl
    rw [feed_opening ho, feed_opening ho, openScope, openScope, hr, htracker,
      Recognizer.openBrace_undocumented]
    simp only [hsize, hopener, record_undocumented]
    rfl
  · rw [feed_closing hc, feed_closing hc, closeScope, closeScope, hr, htracker]
    cases s.tracker.pop? with
    | none =>
        have hreport : s.undocumented.report .unbalancedBraces t.line (unmatchedMessage t.line) =
            (s.report .unbalancedBraces t.line (unmatchedMessage t.line)).undocumented :=
          report_undocumented DiagnosticKind.noConfusion _ _
        simp only [Recognizer.closeBrace_undocumented, hreport]
        rfl
    | some pair =>
        simp only [Recognizer.closeBrace_undocumented]
        rfl
  · rw [feed_semicolon hs, feed_semicolon hs, semicolon, semicolon, hr, htracker,
      Recognizer.semicolon_undocumented h]
    cases s.recognizer.semicolon g source s.tracker t with
    | mk d r =>
        cases d with
        | none => rfl
        | some d =>
            simp only [Option.map_some, Option.elim_some, record_undocumented]
            rfl
  · have hreports : (openEnd? t).elim s.undocumented.diagnostics s.undocumented.diagnostics.push =
        ((openEnd? t).elim s.diagnostics s.diagnostics.push).filter
          (·.kind ≠ .unterminatedComment) := by
      cases he : openEnd? t with
      | none => rfl
      | some e =>
          have hkind : e.kind ≠ .unterminatedComment := fun hk => by
            rw [(openEnd?_kind_eq_iff he).mp hk] at h
            cases h
          simp [undocumented, hkind]
    rw [feed_plain hp, feed_plain hp, hreports, hr, Recognizer.observe_undocumented h]
    rfl

/-- **Without doc comments, a scan of some tokens is a scan of the code tokens**, as long as the
input does not end. -/
theorem run_undocumented {ts : List Token} (hts : ∀ t ∈ ts, t.kind ≠ .endOfInput) :
    (run g source ts s).undocumented = run g source (codeTokens ts) s.undocumented := by
  induction ts generalizing s with
  | nil => rfl
  | cons t ts ih =>
      have ih := ih (s := s.feed g source t) fun u hu => hts u (List.mem_cons_of_mem t hu)
      have hkind : t.kind ≠ .endOfInput := hts t List.mem_cons_self
      cases h : t.isFiller with
      | true =>
          have hskip : codeTokens (t :: ts) = codeTokens ts := by
            rw [codeTokens, List.filter_cons_of_neg (by simp [h]), codeTokens]
          rw [run_cons, ih, feed_filler h, hskip]
      | false =>
          have hkeep : codeTokens (t :: ts) = t :: codeTokens ts := by
            rw [codeTokens, List.filter_cons_of_pos (by simp [h, hkind]), codeTokens]
          rw [run_cons, ih, hkeep, run_cons, feed_undocumented h]

theorem finish_undocumented : s.undocumented.finish = s.finish.undocumented := by
  have htracker : s.undocumented.tracker = s.tracker := rfl
  have hparen : s.undocumented.recognizer.inParenGroup = s.recognizer.inParenGroup := rfl
  have hline : s.undocumented.endLine = s.endLine := rfl
  unfold finish
  rw [htracker, hparen, hline]
  cases s.tracker.current? with
  | none =>
      simp only
      split
      · exact report_undocumented DiagnosticKind.noConfusion _ _
      · rfl
  | some innermost =>
      simp only
      rw [report_undocumented DiagnosticKind.noConfusion]
      rfl

end Scan

end DeclTags
