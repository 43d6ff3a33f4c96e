import DeclTags.Proofs.Braces
import DeclTags.Proofs.Nesting
import DeclTags.Proofs.Streams
import Mathlib.Order.Bounds.Basic

set_option autoImplicit false

/-! # Brace accounting

What a scan counts and reports of braces, said in terms of partners: `matched`, `stray` and
`unclosed` are the braces with and without one. `Scan.Accounts` is the relation between a scan and
the tokens that it was fed. It is kept by every token, since one more token changes both sides by
the same brace (`Scan.Accounts.feed`), and what `Scan.finish` adds is the account of the braces that
are still open.
-/

namespace DeclTags

/-- The numbers of braces that are open behind some of the tokens. -/
def openCounts (ts : List Token) : Set Nat :=
  {n | ∃ before, before <+: ts ∧ (unclosed before).length = n}

theorem openCounts_concat (ts : List Token) (t : Token) :
    openCounts (ts ++ [t]) = insert (unclosed (ts ++ [t])).length (openCounts ts) := by
  ext n
  simp only [openCounts, List.prefix_concat_iff, Set.mem_insert_iff, Set.mem_ofPred_eq]
  constructor
  · rintro ⟨before, rfl | hp, hn⟩
    · exact Or.inl hn.symm
    · exact Or.inr ⟨before, hp, hn⟩
  · rintro (rfl | ⟨before, hp, hn⟩)
    · exact ⟨_, Or.inl rfl, rfl⟩
    · exact ⟨before, Or.inr hp, hn⟩

theorem length_mem_openCounts (ts : List Token) : (unclosed ts).length ∈ openCounts ts :=
  ⟨ts, List.prefix_refl ts, rfl⟩

/-- A token that opens nothing does not raise the greatest number of open braces. -/
theorem openCounts_isGreatest_concat {ts : List Token} {t : Token} {n : Nat}
    (h : IsGreatest (openCounts ts) n)
    (hle : (unclosed (ts ++ [t])).length ≤ (unclosed ts).length) :
    IsGreatest (openCounts (ts ++ [t])) n := by
  have hn : (unclosed ts).length ≤ n := h.2 (length_mem_openCounts ts)
  rw [openCounts_concat, ← Nat.max_eq_right (Nat.le_trans hle hn)]
  exact h.insert _

/-! ## What is reported -/

/-- What is reported of a `}` without a partner. -/
def unmatchedAt (c : Token × Nat) : Diagnostic :=
  .ofKind .unbalancedBraces c.1.line (unmatchedMessage c.1.line)

/-- What is reported of the `{` without a partner, if there are any, where the input ends on line
`endLine`. -/
def unclosedAt? (endLine : Nat) (ts : List Token) : Option Diagnostic :=
  (unclosed ts).getLast?.map fun last =>
    .ofKind .unbalancedBraces endLine
      (Scan.openScopesMessage (unclosed ts).length last.1.line)

namespace Scan

variable {g : Grammar} {source : String} {s : Scan} {t : Token}

/-- What was reported of braces. -/
def unbalanced (s : Scan) : List Diagnostic :=
  s.diagnostics.toList.filter (·.kind == .unbalancedBraces)

theorem report_unbalanced_of_brace (line : Nat) (message : String) :
    (s.report .unbalancedBraces line message).unbalanced =
      s.unbalanced ++ [.ofKind .unbalancedBraces line message] := by
  simp [unbalanced, Diagnostic.ofKind]

theorem record_unbalanced (d : Decision) : (s.record d).unbalanced = s.unbalanced := by
  obtain ⟨new, hnew, hkind⟩ := s.record_diagnostics d
  have hnil : new.filter (·.kind == .unbalancedBraces) = [] := by
    rw [List.filter_eq_nil_iff]
    intro e he
    simp [hkind e he]
  rw [unbalanced, hnew, List.filter_append, hnil, List.append_nil, unbalanced]

theorem elim_record_unbalanced (d : Option Decision) :
    (d.elim s (s.record ·)).unbalanced = s.unbalanced := by
  cases d with
  | none => rfl
  | some d => exact record_unbalanced d

theorem openEnd?_kind {e : Diagnostic} (h : openEnd? t = some e) :
    e.kind ≠ .unbalancedBraces := by
  unfold openEnd? at h
  split at h
  · cases h
  · split at h <;> cases h <;> exact DiagnosticKind.noConfusion

/-- Only a closing brace is reported as unbalanced before the end of the input. -/
theorem feed_unbalanced_of_not_closing (h : t.isPunct '}' = false) :
    (s.feed g source t).unbalanced = s.unbalanced := by
  rcases t.structural_cases with ho | hc | hs | hp
  · rw [feed_opening ho]
    exact record_unbalanced (s := s) _
  · rw [hc] at h
    cases h
  · rw [feed_semicolon hs]
    exact elim_record_unbalanced (s := s) _
  · rw [feed_plain hp, unbalanced, unbalanced]
    cases he : openEnd? t with
    | none => rfl
    | some e => simp [openEnd?_kind he]

/-- A closing brace is reported if no scope is open. -/
theorem feed_unbalanced_of_closing (h : t.isPunct '}' = true) :
    (s.feed g source t).unbalanced =
      s.unbalanced ++ if s.tracker.scopes.isEmpty then [unmatchedAt (t, 0)] else [] := by
  rw [feed_closing h, closeScope, ScopeTracker.pop?]
  cases s.tracker.scopes with
  | nil => exact report_unbalanced_of_brace _ _
  | cons scope outer => exact (List.append_nil _).symm

theorem feed_endLine : (s.feed g source t).endLine = endLineAfter t s.endLine := by
  have hpunct : ∀ c, t.isPunct c = true → endLineAfter t s.endLine = s.endLine := by
    intro c hc
    rw [Token.isPunct_iff] at hc
    simp [endLineAfter, hc]
  rcases t.structural_cases with ho | hc | hs | hp
  · rw [feed_opening ho, hpunct _ ho]
    exact record_endLine (s := s) _
  · rw [feed_closing hc, hpunct _ hc, closeScope]
    cases s.tracker.pop? <;> simp
  · rw [feed_semicolon hs, hpunct _ hs]
    exact elim_record_endLine (s := s) _
  · rw [feed_plain hp]

/-- At the end of the input every scope is closed. -/
theorem finish_stats (s : Scan) : s.finish.tracker.stats = s.tracker.closeAll.stats := by
  unfold finish
  cases hs : s.tracker.current? with
  | some innermost => rfl
  | none =>
      have hdepth : s.tracker.depth = 0 := by
        rw [ScopeTracker.depth, List.head?_eq_none_iff.mp hs]
      have hstats : s.tracker.closeAll.stats = s.tracker.stats := by
        rw [ScopeTracker.closeAll, hdepth]
        rfl
      rw [hstats]
      simp only
      split <;> rfl

/-! ## The accounts of a scan -/

/-- The counts and reports of a scan agree with the braces of the tokens. -/
structure Accounts (s : Scan) (ts : List Token) : Prop where
  aligned : s.Aligned
  lines : s.tracker.scopes.map Scope.line = (unclosed ts).reverse.map (·.1.line)
  pushed : s.tracker.stats.pushed = ts.countP (·.isPunct '{')
  popped : s.tracker.stats.popped = (matched ts).length
  forceClosed : s.tracker.stats.forceClosed = 0
  maxDepth : IsGreatest (openCounts ts) s.tracker.stats.maxDepth
  reports : s.unbalanced = (stray ts).map unmatchedAt
  balance : s.tracker.stats.pushed = s.tracker.stats.popped + (unclosed ts).length

namespace Accounts

variable {ts : List Token}

theorem init : Accounts {} [] where
  aligned := .init
  lines := rfl
  pushed := rfl
  popped := rfl
  forceClosed := rfl
  maxDepth := ⟨length_mem_openCounts [], by
    rintro n ⟨before, hp, rfl⟩
    rw [List.prefix_nil.mp hp]
    exact Nat.le_refl _⟩
  reports := rfl
  balance := rfl

/-- There are as many open scopes as open braces. -/
theorem depth_eq (h : s.Accounts ts) : s.tracker.depth = (unclosed ts).length := by
  have hlen := congrArg List.length h.lines
  rwa [List.length_map, List.length_map, List.length_reverse, ← h.aligned.depth_eq] at hlen

/-- A scope is open if a brace is. -/
theorem scopes_eq_nil_iff (h : s.Accounts ts) : s.tracker.scopes = [] ↔ unclosed ts = [] := by
  rw [← List.length_eq_zero_iff, ← h.aligned.depth_eq, h.depth_eq, List.length_eq_zero_iff]

theorem feed_opening (h : s.Accounts ts) (ht : t.isPunct '{' = true) :
    (s.feed g source t).Accounts (ts ++ [t]) := by
  have hc : t.isPunct '}' = false := Token.not_isPunct_of_ne ht (by decide)
  have htracker : (s.feed g source t).tracker =
      s.tracker.push (s.opener g source) t.line t.start := feed_tracker_of_opening ht
  have hopen := unclosed_concat_opening ts ht
  refine ⟨h.aligned.feed, ?_, ?_, ?_, ?_, ?_, ?_, ?_⟩
  · rw [htracker, ScopeTracker.push_scopes, List.map_cons, h.lines, hopen, List.reverse_concat,
      List.map_cons]
  · rw [htracker, List.countP_append, List.countP_singleton, ht, if_pos rfl, ← h.pushed]
    rfl
  · rw [htracker, matched, closings_concat_of_not_closing _ _ hc]
    exact h.popped
  · rw [htracker]
    exact h.forceClosed
  · have hmax : (s.tracker.push (s.opener g source) t.line t.start).stats.maxDepth =
        max (unclosed (ts ++ [t])).length s.tracker.stats.maxDepth := by
      rw [hopen, List.length_append, List.length_singleton, ← h.depth_eq, Nat.max_comm]
      rfl
    rw [htracker, hmax, openCounts_concat]
    exact h.maxDepth.insert _
  · rw [feed_unbalanced_of_not_closing hc, stray, closings_concat_of_not_closing _ _ hc]
    exact h.reports
  · rw [htracker, hopen, List.length_append, List.length_singleton, ← Nat.add_assoc]
    exact congrArg (· + 1) h.balance

/-- A token that leaves the scopes and the partners as they are leaves the counts right. -/
theorem feed_of_tracker_eq (h : s.Accounts ts) (ho : t.isPunct '{' = false)
    (htracker : (s.feed g source t).tracker = s.tracker)
    (hopen : unclosed (ts ++ [t]) = unclosed ts) (hmatched : matched (ts ++ [t]) = matched ts)
    (hreports : (s.feed g source t).unbalanced = (stray (ts ++ [t])).map unmatchedAt) :
    (s.feed g source t).Accounts (ts ++ [t]) := by
  refine ⟨h.aligned.feed, ?_, ?_, ?_, ?_, ?_, hreports, ?_⟩
  · rw [htracker, hopen, h.lines]
  · rw [htracker, List.countP_append, List.countP_singleton, ho, h.pushed]
    rfl
  · rw [htracker, hmatched, h.popped]
  · rw [htracker, h.forceClosed]
  · rw [htracker]
    exact openCounts_isGreatest_concat h.maxDepth (Nat.le_of_eq (by rw [hopen]))
  · rw [htracker, hopen, h.balance]

theorem feed_of_not_isBrace (h : s.Accounts ts) (ht : t.isBrace = false) :
    (s.feed g source t).Accounts (ts ++ [t]) := by
  obtain ⟨ho, hc⟩ := Token.not_isPunct_of_not_isBrace ht
  refine h.feed_of_tracker_eq ho (feed_tracker_of_not_isBrace ht) (unclosed_concat_plain ts ht)
    (closings_concat_of_not_closing _ _ hc) ?_
  rw [feed_unbalanced_of_not_closing hc, stray, closings_concat_of_not_closing _ _ hc, h.reports]

/-- A closing brace without a partner changes only what is reported. -/
theorem feed_stray (h : s.Accounts ts) (ht : t.isPunct '}' = true) (hu : unclosed ts = []) :
    (s.feed g source t).Accounts (ts ++ [t]) := by
  have ho : t.isPunct '{' = false := Token.not_isPunct_of_ne ht (by decide)
  have hs : s.tracker.scopes = [] := h.scopes_eq_nil_iff.mpr hu
  refine h.feed_of_tracker_eq ho ?_ ?_ ?_ ?_
  · rw [feed_tracker_of_closing ht, ScopeTracker.pop?, hs]
    rfl
  · rw [unclosed_concat_closing ts ht, hu]
    rfl
  · rw [matched, closings_concat_closing _ _ ht, hu]
    exact List.append_nil _
  · rw [feed_unbalanced_of_closing ht, hs, stray, closings_concat_closing _ _ ht, hu, h.reports,
      List.map_append]
    rfl

/-- A closing brace with a partner closes the innermost scope. -/
theorem feed_matched (h : s.Accounts ts) (ht : t.isPunct '}' = true) {before : List (Token × Nat)}
    {last : Token × Nat} (hu : unclosed ts = before ++ [last]) :
    (s.feed g source t).Accounts (ts ++ [t]) := by
  have ho : t.isPunct '{' = false := Token.not_isPunct_of_ne ht (by decide)
  have hopen : unclosed (ts ++ [t]) = before := by
    rw [unclosed_concat_closing ts ht, hu, List.dropLast_concat]
  have hmatched : matched (ts ++ [t]) = matched ts ++ [(t, ts.length)] := by
    rw [matched, closings_concat_closing _ _ ht, hu]
    simp
  have hstray : stray (ts ++ [t]) = stray ts := by
    rw [stray, closings_concat_closing _ _ ht, hu]
    simp
  -- as there is an open brace, there is an open scope, and it is that brace's
  obtain ⟨scope, outer, hs⟩ := List.exists_cons_of_ne_nil fun hnil => by
    have := h.scopes_eq_nil_iff.mp hnil
    simp [hu] at this
  have htracker : (s.feed g source t).tracker =
      ⟨outer, { s.tracker.stats with popped := s.tracker.stats.popped + 1 }⟩ := by
    rw [feed_tracker_of_closing ht, ScopeTracker.pop?, hs]
    rfl
  have hlines : outer.map Scope.line = before.reverse.map (·.1.line) := by
    have := h.lines
    rw [hs, hu, List.reverse_concat, List.map_cons, List.map_cons] at this
    exact (List.cons.inj this).2
  refine ⟨h.aligned.feed, ?_, ?_, ?_, ?_, ?_, ?_, ?_⟩
  · rw [htracker, hopen, hlines]
  · rw [htracker, List.countP_append, List.countP_singleton, ho]
    exact h.pushed
  · rw [htracker, hmatched, List.length_append, List.length_singleton, ← h.popped]
  · rw [htracker]
    exact h.forceClosed
  · rw [htracker]
    refine openCounts_isGreatest_concat h.maxDepth ?_
    rw [hopen, hu, List.length_append]
    exact Nat.le_add_right _ _
  · rw [feed_unbalanced_of_closing ht, hs, hstray, h.reports]
    exact List.append_nil _
  · rw [htracker, hopen]
    have := h.balance
    rw [hu, List.length_append, List.length_singleton] at this
    show s.tracker.stats.pushed = s.tracker.stats.popped + 1 + before.length
    omega

/-- Every token keeps the accounts. -/
theorem feed (h : s.Accounts ts) (t : Token) : (s.feed g source t).Accounts (ts ++ [t]) := by
  cases hb : t.isBrace with
  | false => exact h.feed_of_not_isBrace hb
  | true =>
      rcases (Bool.or_eq_true _ _).mp hb with ho | hc
      · exact h.feed_opening ho
      · rcases List.eq_nil_or_concat (unclosed ts) with hu | ⟨_, _, hu⟩
        · exact h.feed_stray hc hu
        · exact h.feed_matched hc (hu.trans List.concat_eq_append)

/-- A run keeps the accounts. -/
theorem run (h : s.Accounts ts) (us : List Token) : (run g source us s).Accounts (ts ++ us) := by
  induction us generalizing s ts with
  | nil => rwa [List.append_nil]
  | cons t us ih =>
      rw [List.append_cons]
      exact ih (h.feed t)

/-- The innermost open scope is that of the last open brace. -/
theorem current?_line (h : s.Accounts ts) :
    s.tracker.current?.map Scope.line = (unclosed ts).getLast?.map (·.1.line) := by
  have hhead := congrArg List.head? h.lines
  rwa [List.head?_map, List.head?_map, List.head?_reverse] at hhead

/-- What is reported at the end of the input: the braces that are still open, or else that a
parenthesis is. -/
theorem finish_diagnostics (h : s.Accounts ts) :
    s.finish.diagnostics.toList = s.diagnostics.toList ++
      ((unclosedAt? s.endLine ts).or (if s.recognizer.inParenGroup then
        some (.ofKind .unexpectedEnd s.endLine openParenMessage) else none)).toList := by
  have hline := h.current?_line
  unfold Scan.finish unclosedAt?
  cases hcurrent : s.tracker.current? with
  | none =>
      rw [hcurrent, Option.map_none, eq_comm, Option.map_eq_none_iff] at hline
      rw [hline, Option.map_none, Option.none_or]
      simp only
      split
      · exact report_diagnostics _ _ _
      · exact (List.append_nil _).symm
  | some innermost =>
      rw [hcurrent, Option.map_some, eq_comm, Option.map_eq_some_iff] at hline
      obtain ⟨last, hlast, hline⟩ := hline
      rw [hlast, Option.map_some, Option.some_or, ← h.depth_eq, hline]
      exact report_diagnostics _ _ _

/-- What the end of the input adds: the braces that are still open are closed, and reported. -/
theorem finish (h : s.Accounts ts) :
    s.finish.tracker.stats =
        { s.tracker.stats with forceClosed := (unclosed ts).length } ∧
      s.finish.unbalanced =
        (stray ts).map unmatchedAt ++ (unclosedAt? s.endLine ts).toList := by
  constructor
  · rw [finish_stats, ScopeTracker.closeAll, h.forceClosed, Nat.zero_add, h.depth_eq]
  · -- an open parenthesis is reported as of another kind
    rw [unbalanced, h.finish_diagnostics, List.filter_append, ← h.reports]
    refine congrArg (s.unbalanced ++ ·) ?_
    cases hu : unclosedAt? s.endLine ts with
    | none => split <;> simp [Diagnostic.ofKind]
    | some d =>
        obtain ⟨last, -, rfl⟩ := Option.map_eq_some_iff.mp hu
        simp [Diagnostic.ofKind]

end Accounts

/-- The line on which the input ends is that of the token for its end. -/
theorem run_endLine {init : List Token} {eof : Token} (h : eof.kind = .endOfInput) :
    (run g source (init ++ [eof]) s).endLine = eof.line := by
  rw [run_append, run_cons, run_nil, feed_endLine, endLineAfter, if_pos h]

end Scan

/-- **Brace accounting**: a scan counts the `{`, the `}` with a partner, the `{` without one and the
greatest number of braces open at once. It reports each `}` without a partner, in order and on its
line, and then once, on the line of the end of the input, the `{` without a partner, if there are
any. So it reports something of braces exactly if they are not balanced. -/
theorem scan_accounts_for_braces (g : Grammar) (source : List Char) :
    let ts := tokensOf g source
    let r := scan g source
    r.stats.pushed = ts.countP (·.isPunct '{') ∧
    r.stats.popped = (matched ts).length ∧
    r.stats.forceClosed = (unclosed ts).length ∧
    r.stats.pushed = r.stats.popped + r.stats.forceClosed ∧
    IsGreatest (openCounts ts) r.stats.maxDepth ∧
    (∃ endLine,
      r.diagnosticsOf .unbalancedBraces =
        (stray ts).map unmatchedAt ++ (unclosedAt? endLine ts).toList ∧
      ∀ eof ∈ ts, eof.kind = .endOfInput → endLine = eof.line) ∧
    (g.Compiled → (g.lineComment = some "\r" → source.getLast? ≠ some '\r') →
      ∃ eof ∈ ts, eof.kind = .endOfInput) ∧
    (r.diagnosticsOf .unbalancedBraces = [] ↔ Balanced ts) := by
  intro ts r
  have h : (Scan.run g (String.ofList source) ts {}).Accounts ts :=
    Scan.Accounts.init.run ts
  -- what the accounts say of the scan at the end of the tokens, and what its end adds
  generalize hs : Scan.run g (String.ofList source) ts {} = s at h
  have hr : r = s.finish.result := by rw [← hs]; exact scan_eq g source
  obtain ⟨hstats, hreports⟩ := h.finish
  have hdiagnostics : r.diagnosticsOf .unbalancedBraces = s.finish.unbalanced := by rw [hr]; rfl
  have hrstats : r.stats = s.finish.tracker.stats := by rw [hr]; rfl
  rw [hrstats, hstats, hdiagnostics, hreports]
  refine ⟨h.pushed, h.popped, rfl, h.balance, h.maxDepth, ⟨s.endLine, rfl, ?_⟩, ?_, ?_⟩
  · intro eof hmem heof
    obtain ⟨init, hts, -⟩ := Lexer.exists_concat_of_endOfInput g _ eof hmem heof
    rw [← hs, show ts = init ++ [eof] from hts]
    exact Scan.run_endLine heof
  · exact fun hg hend => tokensOf_ends hg hend
  · rw [balanced_iff, List.append_eq_nil_iff, List.map_eq_nil_iff, Option.toList_eq_nil_iff,
      unclosedAt?, Option.map_eq_none_iff, List.getLast?_eq_none_iff]
    exact And.comm

end DeclTags
