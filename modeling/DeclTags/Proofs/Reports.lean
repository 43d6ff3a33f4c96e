import DeclTags.Proofs.Chunks
import DeclTags.Proofs.ParenCounts

set_option autoImplicit false

/-! # What is reported, token by token

At each token at most one thing is reported (`Scan.notice?`): a `}` without a partner, an ambiguity
where something is decided, or the missing end of a comment or literal. A scan collects these in
order (`Scan.run_diagnostics`), and at the end of the input adds one more at most
(`Scan.Accounts.finish_diagnostics`).

The missing ends can be read off the tokens, and so can the report at the end of the input: it is
about the braces that are open then, or else about the parentheses (`scan_reports_all_once`).
-/

namespace DeclTags

/-- What is reported of a decision. -/
def Decision.diagnostic? : Decision → Option Diagnostic
  | .ambiguous name line reason =>
    some (.ofKind .ambiguity line (Scan.ambiguityMessage name reason))
  | _ => none

/-- The diagnostic is about a comment or a literal without its end. -/
def Diagnostic.isOpenEnd (d : Diagnostic) : Bool :=
  d.kind == .unterminatedComment || d.kind == .unterminatedString

namespace Token

/-- A block comment without its end. -/
def isOpenComment (t : Token) : Bool := t.kind == .blockComment && !t.terminated

/-- A string or character literal without its end. -/
def isOpenLiteral (t : Token) : Bool :=
  (t.kind == .stringLiteral || t.kind == .charLiteral) && !t.terminated

end Token

/-- What is reported at the end of the input, on line `endLine`: the scopes that are open, or else
that a parenthesis is. -/
def endReport? (endLine : Nat) (ts : List Token) : Option Diagnostic :=
  match (unclosed ts).getLast? with
  | some innermost =>
    some (.ofKind .unbalancedBraces endLine
      (Scan.openScopesMessage (unclosed ts).length innermost.1.line))
  | none =>
    if 0 < parenCount ts then some (.ofKind .unexpectedEnd endLine Scan.openParenMessage)
    else none

/-- A text that begins with a letter does so with another text behind it. -/
theorem head?_toList_append {a : String} {c : Char} (h : a.toList.head? = some c) (b : String) :
    (a ++ b).toList.head? = some c := by
  rw [String.toList_append, List.head?_append, h]
  rfl

/-- The two messages on braces begin with different letters. -/
theorem unmatchedMessage_ne (line count innermost : Nat) :
    unmatchedMessage line ≠ Scan.openScopesMessage count innermost := by
  have hunmatched : (unmatchedMessage line).toList.head? = some 'u' :=
    head?_toList_append (by decide +kernel) _
  have hopen : (Scan.openScopesMessage count innermost).toList.head? = some 'e' :=
    head?_toList_append (head?_toList_append (head?_toList_append (by decide +kernel) _) _) _
  intro h
  rw [h, hopen] at hunmatched
  exact absurd (Option.some.inj hunmatched) (by decide)

theorem unmatchedAt_not_isEndOfInput (c : Token × Nat) : ¬(unmatchedAt c).IsEndOfInput := by
  rintro (hkind | ⟨-, count, innermost, hmessage⟩)
  · cases hkind
  · exact unmatchedMessage_ne _ _ _ hmessage

namespace Scan

variable {g : Grammar} {source : String} {s : Scan} {t : Token}

/-! ## One token -/

/-- What is reported at a token. -/
def notice? (g : Grammar) (source : String) (s : Scan) (t : Token) : Option Diagnostic :=
  if t.isPunct '}' then if s.tracker.scopes.isEmpty then some (unmatchedAt (t, 0)) else none
  else
    match s.decision? g source t with
    | some d => d.diagnostic?
    | none => openEnd? t

theorem record_diagnostic? (d : Decision) :
    (s.record d).diagnostics.toList = s.diagnostics.toList ++ d.diagnostic?.toList := by
  cases d with
  | ambiguous name line reason => exact report_diagnostics _ _ _
  | type name symbol => cases symbol <;> exact (List.append_nil _).symm
  | _ => exact (List.append_nil _).symm

/-- A token of structure has no end that could be missing. -/
theorem openEnd?_of_isPunct {c : Char} (h : t.isPunct c = true) : openEnd? t = none := by
  rw [openEnd?, Token.isPunct_iff.mp h]
  split <;> rfl

theorem feed_diagnostics_eq :
    (s.feed g source t).diagnostics.toList =
      s.diagnostics.toList ++ (s.notice? g source t).toList := by
  unfold notice?
  rcases t.structural_cases with ho | hc | hs | hp
  · rw [feed_opening ho, Token.not_isPunct_of_ne ho (by decide), if_neg Bool.false_ne_true,
      decision?_of_opening ho]
    exact record_diagnostic? (s := s) _
  · rw [feed_closing hc, if_pos hc, closeScope, ScopeTracker.pop?]
    cases s.tracker.scopes with
    | nil => exact report_diagnostics _ _ _
    | cons scope outer => exact (List.append_nil _).symm
  · rw [feed_semicolon hs, Token.not_isPunct_of_ne hs (by decide), if_neg Bool.false_ne_true,
      decision?_of_semicolon hs, semicolon]
    rcases s.recognizer.semicolon g source s.tracker t with ⟨_ | d, r⟩
    · rw [openEnd?_of_isPunct hs]
      exact (List.append_nil _).symm
    · exact record_diagnostic? d
  · have hbrace := Token.not_isBrace_of_not_structural hp
    rw [feed_plain hp, (Token.not_isPunct_of_not_isBrace hbrace).2, if_neg Bool.false_ne_true,
      decision?_of_plain hp]
    cases openEnd? t with
    | none => exact (List.append_nil _).symm
    | some d => exact Array.toList_push

/-- Of what is reported at a token, only the missing end of a comment or literal is about one. -/
theorem notice?_filter_isOpenEnd :
    (s.notice? g source t).filter Diagnostic.isOpenEnd = openEnd? t := by
  have hopen : ∀ {c : Char}, t.isPunct c = true → openEnd? t = none := openEnd?_of_isPunct
  have hdecision : ∀ d : Decision, d.diagnostic?.filter Diagnostic.isOpenEnd = none := by
    intro d
    cases d <;> rfl
  unfold notice?
  by_cases hc : t.isPunct '}' = true
  · rw [if_pos hc, hopen hc]
    split <;> rfl
  rw [if_neg hc]
  split
  · next d hd =>
    rw [hdecision]
    rcases decision?_cases hd with ⟨ho, -⟩ | ⟨hs, -⟩
    · exact (hopen ho).symm
    · exact (hopen hs).symm
  · unfold openEnd?
    split
    · rfl
    · split <;> rfl

/-- What is reported at a token is not about the end of the input. -/
theorem notice?_not_isEndOfInput {d : Diagnostic} (h : s.notice? g source t = some d) :
    ¬d.IsEndOfInput := by
  unfold notice? at h
  split at h
  · split at h
    · cases h
      exact unmatchedAt_not_isEndOfInput _
    · cases h
  split at h
  · next d' hd =>
    cases d' <;> cases h
    rintro (hkind | ⟨hkind, -⟩) <;> cases hkind
  · unfold openEnd? at h
    split at h
    · cases h
    split at h <;> cases h <;> rintro (hkind | ⟨hkind, -⟩) <;> cases hkind

/-! ## All tokens -/

/-- What is reported at some tokens, one after another. -/
def notices (g : Grammar) (source : String) : List Token → Scan → List Diagnostic
  | [], _ => []
  | t :: ts, s => (s.notice? g source t).toList ++ notices g source ts (s.feed g source t)

theorem run_diagnostics (ts : List Token) :
    (run g source ts s).diagnostics.toList = s.diagnostics.toList ++ notices g source ts s := by
  induction ts generalizing s with
  | nil => exact (List.append_nil _).symm
  | cons t ts ih => rw [run_cons, ih, feed_diagnostics_eq, notices, List.append_assoc]

theorem notices_filter_isOpenEnd (ts : List Token) :
    (notices g source ts s).filter Diagnostic.isOpenEnd = ts.filterMap openEnd? := by
  induction ts generalizing s with
  | nil => rfl
  | cons t ts ih =>
      have hhead : (s.notice? g source t).toList.filter Diagnostic.isOpenEnd =
          (openEnd? t).toList := by
        rw [← notice?_filter_isOpenEnd, Option.toList_filter]
      rw [notices, List.filter_append, hhead, ih, List.filterMap_cons]
      cases openEnd? t <;> rfl

theorem not_isEndOfInput_of_mem_notices {ts : List Token} {d : Diagnostic}
    (h : d ∈ notices g source ts s) : ¬d.IsEndOfInput := by
  induction ts generalizing s with
  | nil => cases h
  | cons t ts ih =>
      rcases List.mem_append.mp h with h | h
      · exact notice?_not_isEndOfInput (Option.mem_toList.mp h)
      · exact ih h

end Scan

/-- What is reported of the end of the input is about it. -/
theorem endReport?_isEndOfInput {endLine : Nat} {ts : List Token} {d : Diagnostic}
    (h : endReport? endLine ts = some d) : d.IsEndOfInput := by
  unfold endReport? at h
  split at h
  · cases h
    exact .inr ⟨rfl, _, _, rfl⟩
  · split at h <;> cases h
    exact .inl rfl

/-! ## The reports of a scan -/

/-- The diagnostics of a scan are those at its tokens, and then that of the end of the input, on
its line. -/
theorem scan_diagnostics (g : Grammar) (source : List Char) : ∃ endLine,
    (scan g source).diagnostics =
      Scan.notices g (String.ofList source) (tokensOf g source) {} ++
        (endReport? endLine (tokensOf g source)).toList ∧
      ∀ eof ∈ tokensOf g source, eof.kind = .endOfInput → endLine = eof.line := by
  have haccounts : (Scan.run g (String.ofList source) (tokensOf g source) {}).Accounts
      (tokensOf g source) := Scan.Accounts.init.run _
  have hnotices : (Scan.run g (String.ofList source) (tokensOf g source) {}).diagnostics.toList =
      [] ++ Scan.notices g (String.ofList source) (tokensOf g source) {} :=
    Scan.run_diagnostics _
  have hdepth := Scan.run_parenDepth g (String.ofList source) (tokensOf g source)
  generalize hs : Scan.run g (String.ofList source) (tokensOf g source) {} = s at *
  have hscan : (scan g source).diagnostics = s.finish.diagnostics.toList := by
    rw [← hs]
    exact congrArg ScanResult.diagnostics (scan_eq g source)
  refine ⟨s.endLine, ?_, ?_⟩
  · rw [hscan, haccounts.finish_diagnostics, hnotices, List.nil_append]
    refine congrArg (_ ++ Option.toList ·) ?_
    unfold endReport? unclosedAt?
    cases hlast : (unclosed (tokensOf g source)).getLast? with
    | some innermost => rfl
    | none =>
        -- no brace is open, so the parentheses are counted from the beginning on
        rw [behindBrace_eq_self (List.getLast?_eq_none_iff.mp hlast)] at hdepth
        simp only [Option.map_none, Option.none_or, Recognizer.inParenGroup, hdepth,
          decide_eq_true_eq]
  · intro eof heof hkind
    obtain ⟨init, hts, -⟩ := Lexer.exists_concat_of_endOfInput g _ eof heof hkind
    rw [← hs, show tokensOf g source = init ++ [eof] from hts]
    exact Scan.run_endLine hkind

/-- The missing ends of comments and literals are reported in the order of the tokens. -/
theorem scan_openEnds (g : Grammar) (source : List Char) :
    (scan g source).diagnostics.filter Diagnostic.isOpenEnd =
      (tokensOf g source).filterMap Scan.openEnd? := by
  obtain ⟨endLine, hall, -⟩ := scan_diagnostics g source
  have hend : (endReport? endLine (tokensOf g source)).toList.filter Diagnostic.isOpenEnd = [] := by
    rw [List.filter_eq_nil_iff]
    intro d hd
    rcases endReport?_isEndOfInput (Option.mem_toList.mp hd) with hd | ⟨hd, -⟩ <;>
      simp [Diagnostic.isOpenEnd, hd]
  rw [hall, List.filter_append, hend, List.append_nil, Scan.notices_filter_isOpenEnd]

/-- The diagnostics of a kind that is about missing ends are those of the tokens concerned. -/
theorem diagnosticsOf_openEnd (g : Grammar) (source : List Char) {kind : DiagnosticKind}
    (hopen : kind = .unterminatedComment ∨ kind = .unterminatedString) {p : Token → Bool}
    {f : Token → Diagnostic}
    (h : ∀ t, (Scan.openEnd? t).filter (·.kind == kind) = if p t then some (f t) else none) :
    (scan g source).diagnosticsOf kind = ((tokensOf g source).filter p).map f := by
  have himplies : ∀ d : Diagnostic, (d.kind == kind) = (d.kind == kind && d.isOpenEnd) := by
    intro d
    by_cases hd : d.kind = kind
    · rcases hopen with rfl | rfl <;> simp [Diagnostic.isOpenEnd, hd]
    · simp [hd]
  calc (scan g source).diagnosticsOf kind
      = ((scan g source).diagnostics.filter Diagnostic.isOpenEnd).filter (·.kind == kind) := by
        rw [List.filter_filter]
        exact List.filter_congr fun d _ => himplies d
    _ = (tokensOf g source).filterMap fun t => if p t then some (f t) else none := by
        rw [scan_openEnds, List.filter_filterMap]
        exact List.filterMap_congr fun t _ => h t
    _ = ((tokensOf g source).filter p).map f := by
        rw [← List.filterMap_eq_map, List.filterMap_filter]
        rfl

theorem openEnd?_filter_comment (t : Token) :
    (Scan.openEnd? t).filter (·.kind == .unterminatedComment) =
      if t.isOpenComment then
        some (.ofKind .unterminatedComment t.line Scan.openCommentMessage) else none := by
  unfold Scan.openEnd? Token.isOpenComment
  cases hk : t.kind <;> cases t.terminated <;> rfl

theorem openEnd?_filter_literal (t : Token) :
    (Scan.openEnd? t).filter (·.kind == .unterminatedString) =
      if t.isOpenLiteral then
        some (.ofKind .unterminatedString t.line (Scan.openLiteralMessage t.kind)) else none := by
  unfold Scan.openEnd? Token.isOpenLiteral
  cases hk : t.kind <;> cases t.terminated <;> rfl

/-- **Everything is reported, and once.** If the tokens of a source come to the end of the input,
each block comment without its end is reported once, on its line, and each string or character
literal without its end; both in the order of the tokens, and nothing else is of these kinds. After
all that is reported at tokens there is one more report at most, on the line of the end of the
input: of the braces without a partner, or if there are none, of a parenthesis that is open,
counted outside of blocks and from the last `}` without a partner on. -/
theorem scan_reports_all_once {g : Grammar} {source : List Char} {eof : Token}
    (heof : eof ∈ tokensOf g source) (hkind : eof.kind = .endOfInput) :
    let ts := tokensOf g source
    let r := scan g source
    r.diagnosticsOf .unterminatedComment = (ts.filter Token.isOpenComment).map (fun t =>
      .ofKind .unterminatedComment t.line Scan.openCommentMessage) ∧
    r.diagnosticsOf .unterminatedString = (ts.filter Token.isOpenLiteral).map (fun t =>
      .ofKind .unterminatedString t.line (Scan.openLiteralMessage t.kind)) ∧
    r.diagnostics.filter Diagnostic.isOpenEnd = ts.filterMap Scan.openEnd? ∧
    ∃ atTokens, r.diagnostics = atTokens ++ (endReport? eof.line ts).toList ∧
      (∀ d ∈ atTokens, ¬d.IsEndOfInput) ∧ ∀ d ∈ endReport? eof.line ts, d.IsEndOfInput := by
  intro ts r
  obtain ⟨endLine, hall, hline⟩ := scan_diagnostics g source
  rw [hline eof heof hkind] at hall
  exact ⟨diagnosticsOf_openEnd g source (.inl rfl) openEnd?_filter_comment,
    diagnosticsOf_openEnd g source (.inr rfl) openEnd?_filter_literal, scan_openEnds g source,
    Scan.notices g (String.ofList source) ts {}, hall,
    fun _ hd => Scan.not_isEndOfInput_of_mem_notices hd, fun _ hd => endReport?_isEndOfInput hd⟩

/-- A `(` behind a `}` without a partner, and behind that a block with a `)`, a literal and a
comment. -/
theorem scan_reports_all_once_of_parens :
    let source := "( \x7d ( \x7b ) \x7d \"a\n /* b".toList
    let eof : Token := ⟨.endOfInput, "", 20, 20, 2, 6, true⟩
    let r := scan (.ofProfile .java) source
    eof ∈ tokensOf (.ofProfile .java) source ∧
      r.diagnosticsOf .unterminatedComment =
        [.ofKind .unterminatedComment 2 Scan.openCommentMessage] ∧
      r.diagnosticsOf .unterminatedString =
        [.ofKind .unterminatedString 1 (Scan.openLiteralMessage .stringLiteral)] ∧
      r.diagnostics.getLast? = some (.ofKind .unexpectedEnd 2 Scan.openParenMessage) := by
  intro source eof r
  have heof : eof ∈ tokensOf (.ofProfile .java) source := by decide +kernel
  obtain ⟨hcomments, hliterals, -, atTokens, hall, -⟩ := scan_reports_all_once heof rfl
  have hend : endReport? eof.line (tokensOf (.ofProfile .java) source) =
      some (.ofKind .unexpectedEnd 2 Scan.openParenMessage) := by decide +kernel
  refine ⟨heof, hcomments.trans (by decide +kernel), hliterals.trans (by decide +kernel), ?_⟩
  rw [show r.diagnostics = _ from hall, hend]
  exact List.getLast?_concat

end DeclTags
