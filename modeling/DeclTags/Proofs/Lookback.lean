import DeclTags.Proofs.DocComments
import DeclTags.Proofs.Positions
import DeclTags.Proofs.Settings

set_option autoImplicit false

/-! # The bound on candidates

A candidate keeps no more tokens than the grammar allows. All tokens that were observed for it are
what `Observed` keeps, which has no bound and nothing but tokens. Whatever a recognizer is told of,
and in whatever order, its candidate has the first of these tokens, knows whether there were more,
and counts the parentheses of all of them (`Candidate.KeepsFirst`); one that had more is no
declaration. In a scan, the observed tokens are the code behind the boundary, outside of blocks.

So two bounds make a difference only to a source in which some candidate has more tokens than one of
them allows: without one, two scans run through the same states (`Scan.run_withLimit`).
-/

namespace DeclTags

open Candidate (openParens)

/-! ## What is observed -/

/-- All tokens observed for the current candidate, and for those that wait for a brace. -/
structure Observed where
  current : List Token := []
  /-- With the depths of the scopes that they wait for, innermost first. -/
  waiting : List (Nat × List Token) := []

namespace Observed

/-- One more token, if it is code. -/
def add (t : Token) (o : Observed) : Observed := { o with current := o.current ++ codeTokens [t] }

/-- What is observed behind an event. A `{` or `;` outside of parentheses ends the candidate; inside
of them the `;` is one of its tokens, and a `{` lets it wait until the scope of the brace closes. -/
def after (o : Observed) : Event → Observed
  | .token t => o.add t
  | .openBrace tracker =>
    { waiting := if 0 < openParens o.current then (tracker.depth, o.current) :: o.waiting
        else o.waiting }
  | .closeBrace none => { waiting := o.waiting }
  | .closeBrace (some depth) =>
    match o.waiting.dropWhile fun w => depth < w.1 with
    | [] => {}
    | w :: outer =>
      if w.1 = depth then { current := w.2, waiting := outer } else { waiting := w :: outer }
  | .semicolon t _ => if 0 < openParens o.current then o.add t else { waiting := o.waiting }

end Observed

/-- What is observed in a run of a recognizer. -/
def observed (events : List Event) : Observed := events.foldl Observed.after {}

/-! ## What a candidate keeps -/

namespace Candidate

/-- The candidate keeps the first tokens of a run, but counts the parentheses of all of it. -/
structure KeepsFirst (limit : Nat) (run : List Token) (c : Candidate) : Prop where
  tokens : c.tokens = run.take limit
  overflowed : c.overflowed = true ↔ limit < run.length
  parenDepth : c.parenDepth = openParens run

/-- As long as there is room, a token is added. -/
theorem add_of_lt {limit : Nat} {t : Token} {c : Candidate} (h : c.size < limit) :
    c.add limit t =
      { c with
        back := t :: c.back
        size := c.size + 1
        parenDepth := depthAfter c.parenDepth t } := if_pos h

/-- Without room, a token is counted only. -/
theorem add_of_le {limit : Nat} {t : Token} {c : Candidate} (h : limit ≤ c.size) :
    c.add limit t = { c with parenDepth := depthAfter c.parenDepth t, overflowed := true } :=
  if_neg (Nat.not_lt.mpr h)

theorem ofRun_size (limit : Nat) (doc : Option String) (run : List Token) :
    (ofRun limit doc run).size = min run.length limit := by
  induction run using List.reverseRecOn with
  | nil => exact (Nat.zero_min limit).symm
  | append_singleton run t ih =>
      rw [← ofRun_concat, List.length_append, List.length_singleton]
      rcases Nat.lt_or_ge run.length limit with h | h
      · rw [add_of_lt (by omega)]
        show (ofRun limit doc run).size + 1 = _
        omega
      · rw [add_of_le (by omega)]
        show (ofRun limit doc run).size = _
        omega

/-- **The tokens put together one after another** are kept up to the limit. -/
theorem ofRun_keepsFirst (limit : Nat) (doc : Option String) (run : List Token) :
    (ofRun limit doc run).KeepsFirst limit run := by
  refine ⟨?tokens, ?overflowed, ofRun_parenDepth limit doc run⟩
  case tokens =>
    induction run using List.reverseRecOn with
    | nil => exact List.take_nil.symm
    | append_singleton run t ih =>
        rw [← ofRun_concat]
        rcases Nat.lt_or_ge run.length limit with h | h
        · rw [add_of_lt (by rw [ofRun_size]; omega), List.take_of_length_le (by simp; omega)]
          rw [List.take_of_length_le (Nat.le_of_lt h)] at ih
          show (t :: (ofRun limit doc run).back).reverse = _
          rw [List.reverse_cons]
          exact congrArg (· ++ [t]) ih
        · rw [add_of_le (by rw [ofRun_size]; omega), List.take_append_of_le_length h]
          exact ih
  case overflowed =>
    induction run using List.reverseRecOn with
    | nil => simp [ofRun]
    | append_singleton run t ih =>
        rw [← ofRun_concat, List.length_append, List.length_singleton]
        rcases Nat.lt_or_ge run.length limit with h | h
        · rw [add_of_lt (by rw [ofRun_size]; omega)]
          show (ofRun limit doc run).overflowed = true ↔ _
          rw [ih]
          omega
        · rw [add_of_le (by rw [ofRun_size]; omega)]
          exact iff_of_true rfl (by omega)

/-- The candidate is made of just this run, behind some comment. -/
def IsOf (limit : Nat) (run : List Token) (c : Candidate) : Prop :=
  ∃ doc, c = ofRun limit doc run

namespace IsOf

variable {limit : Nat} {run : List Token} {c : Candidate}

theorem keepsFirst (h : c.IsOf limit run) : c.KeepsFirst limit run := by
  obtain ⟨doc, rfl⟩ := h
  exact ofRun_keepsFirst limit doc run

theorem nil (limit : Nat) : IsOf limit [] {} := ⟨none, rfl⟩

end IsOf

variable {g : Grammar} {source : String} {tracker : ScopeTracker} {c : Candidate}

/-- A candidate of too many tokens opens nothing that is known. -/
theorem atBrace_of_overflowed (h : c.overflowed = true) :
    c.atBrace g source tracker = .unknown := by
  simp [atBrace, h]

/-- A candidate of too many tokens is no member. -/
theorem atSemicolon?_of_overflowed (h : c.overflowed = true) :
    c.atSemicolon? g source tracker = none := by
  simp [atSemicolon?, mayBeMember, h]

end Candidate

/-! ## Runs of a recognizer -/

/-- The suspended candidate is made of what was observed for it, and waits for the same scope. -/
structure Suspended.IsOf (limit : Nat) (w : Suspended) (p : Nat × List Token) : Prop where
  depth : w.depth = p.1
  candidate : w.candidate.IsOf limit p.2

/-- The candidates that wait for scopes further in are passed over. -/
theorem Suspended.isOf_dropWhile {limit : Nat} {suspended : List Suspended}
    {waiting : List (Nat × List Token)} (h : List.Forall₂ (Suspended.IsOf limit) suspended waiting)
    (depth : Nat) :
    List.Forall₂ (Suspended.IsOf limit) (suspended.dropWhile fun w => depth < w.depth)
      (waiting.dropWhile fun p => depth < p.1) := by
  induction h with
  | nil => exact .nil
  | cons hw hrest ih =>
      rw [List.dropWhile_cons, List.dropWhile_cons, hw.depth]
      split
      · exact ih
      · exact .cons hw hrest

namespace Recognizer

theorem extend_isOf {g : Grammar} {r : Recognizer} {t : Token} {run : List Token}
    (h : r.candidate.IsOf g.maxCandidateTokens run) :
    (r.extend g t).candidate.IsOf g.maxCandidateTokens (run ++ [t]) := by
  obtain ⟨doc, hrun⟩ := h
  rw [Recognizer.extend, hrun]
  split
  · exact ⟨r.pendingDoc, by rw [Candidate.ofRun_withDoc, Candidate.ofRun_concat]⟩
  · exact ⟨doc, Candidate.ofRun_concat _ _ _ _⟩

/-- A token is added to the candidate if it is code. -/
theorem observe_isOf {g : Grammar} {r : Recognizer} {t : Token} {run : List Token}
    (h : r.candidate.IsOf g.maxCandidateTokens run) :
    (r.observe g t).candidate.IsOf g.maxCandidateTokens (run ++ codeTokens [t]) := by
  rw [codeTokens_singleton]
  by_cases hend : t.kind = .endOfInput
  · have hsame : r.observe g t = r := by simp [Recognizer.observe, hend]
    rw [hsame, if_pos (.inr hend), List.append_nil]
    exact h
  cases hfiller : t.isFiller with
  | true =>
      rw [if_pos (.inl rfl), List.append_nil, observe_of_isFiller g r hfiller]
      split
      · exact h
      · exact h
  | false =>
      rw [if_neg (by simp [hend]), Scan.observe_code hfiller hend]
      exact extend_isOf h

/-- The recognizer's candidates are made of what was observed for them. -/
structure Keeps (limit : Nat) (o : Observed) (r : Recognizer) : Prop where
  current : r.candidate.IsOf limit o.current
  waiting : List.Forall₂ (Suspended.IsOf limit) r.suspended o.waiting

namespace Keeps

variable {g : Grammar} {source : String} {limit : Nat} {o : Observed} {r : Recognizer} {t : Token}

theorem parenDepth (h : r.Keeps limit o) : r.candidate.parenDepth = openParens o.current :=
  h.current.keepsFirst.parenDepth

theorem inParenGroup_iff (h : r.Keeps limit o) :
    r.inParenGroup = true ↔ 0 < openParens o.current := by
  rw [inParenGroup, h.parenDepth, decide_eq_true_eq]

/-- At a boundary nothing is observed yet. -/
theorem boundary {suspended : List Suspended} {waiting : List (Nat × List Token)}
    (h : List.Forall₂ (Suspended.IsOf limit) suspended waiting) :
    (Recognizer.boundary suspended).Keeps limit { waiting := waiting } := ⟨.nil limit, h⟩

/-- A token is observed if it is code. -/
theorem observe (h : r.Keeps g.maxCandidateTokens o) :
    (r.observe g t).Keeps g.maxCandidateTokens (o.add t) :=
  ⟨observe_isOf h.current, by rw [observe_suspended]; exact h.waiting⟩

theorem openBrace (h : r.Keeps limit o) (g : Grammar) (source : String)
    (tracker : ScopeTracker) :
    (r.openBrace g source tracker).2.Keeps limit (o.after (.openBrace tracker)) := by
  rw [Observed.after]
  refine boundary ?_
  by_cases hopen : 0 < openParens o.current
  · rw [if_pos hopen, if_pos (h.inParenGroup_iff.mpr hopen)]
    exact .cons ⟨rfl, h.current⟩ h.waiting
  · rw [if_neg hopen, if_neg (mt h.inParenGroup_iff.mp hopen)]
    exact h.waiting

theorem closeBrace (h : r.Keeps limit o) (closed : Option Nat) :
    (r.closeBrace closed).Keeps limit (o.after (.closeBrace closed)) := by
  cases closed with
  | none => exact boundary h.waiting
  | some depth =>
      have hdrop := Suspended.isOf_dropWhile h.waiting depth
      rw [Recognizer.closeBrace, Observed.after]
      revert hdrop
      generalize r.suspended.dropWhile (fun w => depth < w.depth) = suspended
      generalize o.waiting.dropWhile (fun w => depth < w.1) = waiting
      intro hdrop
      cases hdrop with
      | nil => exact boundary .nil
      | cons hw hrest =>
          simp only [hw.depth]
          split
          · exact ⟨hw.candidate, hrest⟩
          · exact boundary (.cons hw hrest)

theorem semicolon (h : r.Keeps g.maxCandidateTokens o) (tracker : ScopeTracker) :
    (r.semicolon g source tracker t).2.Keeps g.maxCandidateTokens
      (o.after (.semicolon t tracker)) := by
  rw [Recognizer.semicolon, Observed.after]
  by_cases hopen : 0 < openParens o.current
  · rw [if_pos hopen, if_pos (h.inParenGroup_iff.mpr hopen)]
    exact h.observe
  · rw [if_neg hopen, if_neg (mt h.inParenGroup_iff.mp hopen)]
    exact boundary h.waiting

/-- What is observed at an event is kept. -/
theorem handle (h : r.Keeps g.maxCandidateTokens o) (e : Event) :
    (r.handle g source e).2.Keeps g.maxCandidateTokens (o.after e) := by
  cases e with
  | token t => exact h.observe
  | openBrace tracker => exact h.openBrace g source tracker
  | closeBrace closed => exact h.closeBrace closed
  | semicolon t tracker => exact h.semicolon tracker

theorem handleAll (h : r.Keeps g.maxCandidateTokens o) (events : List Event) :
    (r.handleAll g source events).2.Keeps g.maxCandidateTokens
      (events.foldl Observed.after o) := by
  induction events generalizing r o with
  | nil => exact h
  | cons e events ih => exact ih (h.handle e)

end Keeps

/-- What was observed in a run is kept. -/
theorem handleAll_keeps (g : Grammar) (source : String) (events : List Event) :
    (({} : Recognizer).handleAll g source events).2.Keeps g.maxCandidateTokens
      (observed events) := Keeps.handleAll ⟨.nil _, .nil⟩ events

end Recognizer

/-! ## Scans -/

/-- At no place before the end of the input has the candidate more tokens than that. -/
def CandidatesWithin (limit : Nat) (ts : List Token) : Prop :=
  ∀ before start part, before <+: ts → (∀ t ∈ before, t.kind ≠ .endOfInput) →
    BeginsBehind before start part → (runOf part).length ≤ limit

/-- The grammar with another bound on the tokens of a candidate. -/
def Grammar.withLimit (g : Grammar) (limit : Nat) : Grammar :=
  { g with maxCandidateTokens := limit }

/-- The bound is one of the settings. -/
theorem Grammar.withLimit_eq (g : Grammar) (limit : Nat) :
    g.withLimit limit = g.withSettings g.emitTypeSymbols limit := rfl

namespace Candidate

/-- With room for a token under two bounds, it does not matter which of them holds. -/
theorem add_congr {m n : Nat} {t : Token} {c : Candidate} (hm : (c.add m t).overflowed = false)
    (hn : (c.add n t).overflowed = false) : c.add m t = c.add n t := by
  have hroom : ∀ limit, (c.add limit t).overflowed = false → c.size < limit := by
    intro limit h
    by_contra hfull
    rw [add_of_le (Nat.not_lt.mp hfull)] at h
    cases h
  rw [add_of_lt (hroom m hm), add_of_lt (hroom n hn)]

end Candidate

namespace Recognizer

variable {g : Grammar} {m n : Nat} {r : Recognizer} {t : Token}

theorem observe_congr (hm : (r.observe (g.withLimit m) t).candidate.overflowed = false)
    (hn : (r.observe (g.withLimit n) t).candidate.overflowed = false) :
    r.observe (g.withLimit m) t = r.observe (g.withLimit n) t := by
  by_cases hend : t.kind = .endOfInput
  · simp [Recognizer.observe, hend]
  cases hfiller : t.isFiller with
  | true => rw [observe_of_isFiller _ _ hfiller, observe_of_isFiller _ _ hfiller]
  | false =>
      rw [Scan.observe_code hfiller hend, Recognizer.extend] at hm hn ⊢
      rw [Scan.observe_code hfiller hend, Recognizer.extend]
      by_cases hempty : r.candidate.isEmpty = true
      · rw [if_pos hempty] at hm hn ⊢
        rw [if_pos hempty]
        rw [show Candidate.add _ t _ = _ from Candidate.add_congr hm hn]
      · rw [if_neg hempty] at hm hn ⊢
        rw [if_neg hempty]
        rw [show Candidate.add _ t _ = _ from Candidate.add_congr hm hn]

end Recognizer

namespace Scan

variable {g : Grammar} {source : String} {ts : List Token}

/-- **In a scan** what is kept are the first tokens of the code behind the boundary. -/
theorem run_keepsFirst (hlimit : 0 < g.maxCandidateTokens) (source : String)
    (hend : ∀ t ∈ ts, t.kind ≠ .endOfInput) :
    ∃ start part, BeginsBehind ts start part ∧
      (run g source ts {}).recognizer.candidate.KeepsFirst g.maxCandidateTokens (runOf part) := by
  obtain ⟨start, part, hbegin, hpart⟩ := run_standsBehind hlimit source ts hend
  refine ⟨start, part, hbegin, ?_⟩
  rw [hpart.candidate]
  split
  · next hnone =>
    rw [hnone]
    exact (Candidate.IsOf.nil _).keepsFirst
  · exact Candidate.ofRun_keepsFirst _ _ _

/-- Where no candidate has more tokens than the grammar allows, none is cut. -/
theorem not_overflowed_of_within {n : Nat} (hlimit : 0 < g.maxCandidateTokens)
    (hn : n ≤ g.maxCandidateTokens) (hwithin : CandidatesWithin n ts) (source : String)
    (hend : ∀ t ∈ ts, t.kind ≠ .endOfInput) :
    (run g source ts {}).recognizer.candidate.overflowed = false := by
  obtain ⟨start, part, hbegin, hkeeps⟩ := run_keepsFirst hlimit source hend
  have hlength : (runOf part).length ≤ n :=
    hwithin ts start part (List.prefix_refl ts) hend hbegin
  refine Bool.eq_false_iff.mpr fun hflow => ?_
  have := hkeeps.overflowed.mp hflow
  omega

/-- If a token finds room under two bounds, the step is the same under both of them. -/
theorem feed_withLimit {m n : Nat} {s : Scan} {t : Token}
    (hm : (s.feed (g.withLimit m) source t).recognizer.candidate.overflowed = false)
    (hn : (s.feed (g.withLimit n) source t).recognizer.candidate.overflowed = false) :
    s.feed (g.withLimit m) source t = s.feed (g.withLimit n) source t := by
  rcases t.structural_cases with ho | hc | hs | hp
  · have hd : ∀ limit, s.recognizer.openBrace (g.withLimit limit) source s.tracker =
        s.recognizer.openBrace g source s.tracker := by
      intro limit
      rw [Recognizer.openBrace, Recognizer.openBrace, Grammar.withLimit_eq,
        Candidate.atBrace_withSettings]
      rfl
    rw [feed_opening ho, feed_opening ho, openScope, openScope, hd, hd]
  · rw [feed_closing hc, feed_closing hc]
  · have hd : ∀ limit, s.recognizer.candidate.atSemicolon? (g.withLimit limit) source s.tracker =
        s.recognizer.candidate.atSemicolon? g source s.tracker := fun limit =>
      Candidate.atSemicolon?_withSettings g _ _ _
    rw [feed_recognizer_of_semicolon hs, Recognizer.semicolon] at hm hn
    rw [feed_semicolon hs, feed_semicolon hs, Scan.semicolon, Scan.semicolon,
      Recognizer.semicolon, Recognizer.semicolon]
    by_cases hparen : s.recognizer.inParenGroup = true
    · rw [if_pos hparen] at hm hn ⊢
      rw [if_pos hparen, Recognizer.observe_congr hm hn]
    · rw [if_neg hparen, if_neg hparen, hd, hd]
  · rw [feed_recognizer_of_plain hp] at hm hn
    rw [feed_plain hp, feed_plain hp, Recognizer.observe_congr hm hn]

/-- **Without a candidate that one of two bounds cuts**, scans run through the same states. -/
theorem run_withLimit {m n : Nat} (source : String) (hm : 0 < m) (hn : 0 < n)
    (hwithin : CandidatesWithin (min m n) ts) (hend : ∀ t ∈ ts, t.kind ≠ .endOfInput) :
    run (g.withLimit m) source ts {} = run (g.withLimit n) source ts {} := by
  induction ts using List.reverseRecOn with
  | nil => rfl
  | append_singleton ts t ih =>
      have hsame : run (g.withLimit m) source ts {} = run (g.withLimit n) source ts {} :=
        ih (fun before start part hbefore => hwithin before start part
          (hbefore.trans (List.prefix_append ts [t]))) fun u hu =>
          hend u (List.mem_append_left _ hu)
      have hroom : ∀ limit, 0 < limit → min m n ≤ limit →
          ((run (g.withLimit limit) source ts {}).feed (g.withLimit limit) source
            t).recognizer.candidate.overflowed = false := by
        intro limit hpos hle
        have := not_overflowed_of_within (g := g.withLimit limit) hpos hle hwithin source hend
        rwa [run_append, run_cons, run_nil] at this
      rw [run_append, run_append, run_cons, run_cons, run_nil, run_nil, hsame]
      exact feed_withLimit (hsame ▸ hroom m hm (Nat.min_le_left m n))
        (hroom n hn (Nat.min_le_right m n))

/-- What is kept under a bound that nothing exceeds shows how many tokens the candidates have. -/
theorem within_of_run {n : Nat} (hlimit : 0 < g.maxCandidateTokens) (source : String)
    (h : ∀ before, before <+: ts → (∀ t ∈ before, t.kind ≠ .endOfInput) →
      let c := (run g source before {}).recognizer.candidate
      c.overflowed = false ∧ c.tokens.length ≤ n) :
    CandidatesWithin n ts := by
  intro before start part hbefore hend hbegin
  obtain ⟨start', part', hbegin', hkeeps⟩ := run_keepsFirst hlimit source hend
  obtain ⟨-, rfl⟩ := hbegin.unique hbegin'
  obtain ⟨hflow, hlength⟩ := h before hbefore hend
  have hall : (runOf part).length ≤ g.maxCandidateTokens := by
    by_contra hmore
    rw [hkeeps.overflowed.mpr (Nat.not_le.mp hmore)] at hflow
    cases hflow
  rwa [hkeeps.tokens, List.take_of_length_le hall] at hlength

end Scan

/-- **The bound on candidates is exact, and otherwise invisible.** Whatever a recognizer is told of,
its candidate has the first of the tokens observed for it, up to the bound, knows whether there were
more, and counts the parentheses of all of them; with more, a `{` opens an unknown scope and a `;`
ends no member. In a scan, these are the tokens of code behind the boundary, outside of blocks.
Where no candidate of a source has more tokens than either of two bounds, the scans under them are
the same. -/
theorem lookback_exact :
    (∀ (g : Grammar) (source : String) (events : List Event),
      let r := (({} : Recognizer).handleAll g source events).2
      let run := (observed events).current
      r.candidate.KeepsFirst g.maxCandidateTokens run ∧
      (g.maxCandidateTokens < run.length → ∀ t tracker,
        (r.handle g source (.openBrace tracker)).1 = some .unknown ∧
        (r.handle g source (.semicolon t tracker)).1 = none)) ∧
    (∀ (g : Grammar) (source : String) (ts : List Token), 0 < g.maxCandidateTokens →
      (∀ t ∈ ts, t.kind ≠ .endOfInput) →
      ∃ start part, BeginsBehind ts start part ∧
        (Scan.run g source ts {}).recognizer.candidate.KeepsFirst g.maxCandidateTokens
          (runOf part)) ∧
    ∀ (g : Grammar) (m n : Nat) (source : List Char), 0 < m → 0 < n →
      CandidatesWithin (min m n) (tokensOf g source) →
      scan (g.withLimit m) source = scan (g.withLimit n) source := by
  refine ⟨?runs, fun g source ts hlimit hend => Scan.run_keepsFirst hlimit source hend, ?scans⟩
  case runs =>
    intro g source events r run
    have hkeeps : r.candidate.KeepsFirst g.maxCandidateTokens run :=
      (Recognizer.handleAll_keeps g source events).current.keepsFirst
    refine ⟨hkeeps, fun hmore t tracker => ?_⟩
    have hflow : r.candidate.overflowed = true := hkeeps.overflowed.mpr hmore
    constructor
    · exact congrArg some (Candidate.atBrace_of_overflowed hflow)
    · show (r.semicolon g source tracker t).1 = none
      rw [Recognizer.semicolon]
      split
      · rfl
      · exact Candidate.atSemicolon?_of_overflowed hflow
  case scans =>
    intro g m n source hm hn hwithin
    have htokens : ∀ limit, tokensOf (g.withLimit limit) source = tokensOf g source := fun limit =>
      tokensOf_withSettings g _ limit source
    have hrun : Scan.run (g.withLimit m) (String.ofList source) (tokensOf g source) {} =
        Scan.run (g.withLimit n) (String.ofList source) (tokensOf g source) {} := by
      by_cases hend : ∀ t ∈ tokensOf g source, t.kind ≠ .endOfInput
      · exact Scan.run_withLimit _ hm hn hwithin hend
      · -- the end of the input stands last, and does not come to the candidate
        push Not at hend
        obtain ⟨e, he, hkind⟩ := hend
        obtain ⟨init, hinit, hnone⟩ := Lexer.exists_concat_of_endOfInput g _ e he hkind
        have hinit : tokensOf g source = init ++ [e] := hinit
        have hsame := Scan.run_withLimit (g := g) (String.ofList source) hm hn
          (fun before start part hbefore => hwithin before start part
            (hbefore.trans (hinit ▸ List.prefix_append init [e]))) hnone
        rw [hinit, Scan.run_append, Scan.run_append, Scan.run_cons, Scan.run_cons, Scan.run_nil,
          Scan.run_nil, Scan.feed_endOfInput hkind, Scan.feed_endOfInput hkind, hsame]
    have hresult := congrArg (fun s : Scan => s.finish.result) hrun
    rw [scan_eq, scan_eq, htokens, htokens]
    exact hresult

/-- Six tokens are enough for a method of six tokens, and five are not. -/
theorem lookback_exact_of_method :
    let g : Grammar := .ofProfile .java
    let source := "class A \x7b void f(int x) \x7b\x7d\x7d".toList
    CandidatesWithin 6 (tokensOf g source) ∧
      scan (g.withLimit 6) source = scan g source ∧
      (scan g source).symbols.map Symbol.name = ["f"] ∧
      (scan (g.withLimit 5) source).symbols = [] := by
  intro g source
  have hwithin : CandidatesWithin 6 (tokensOf g source) := by
    refine Scan.within_of_run (g := g) (by decide) (String.ofList source) fun before hbefore _ => ?_
    have hall : ∀ before ∈ (tokensOf g source).inits,
        let c := (Scan.run g (String.ofList source) before {}).recognizer.candidate
        c.overflowed = false ∧ c.tokens.length ≤ 6 := by decide +kernel
    exact hall before ((List.mem_inits before _).mpr hbefore)
  have hsame : scan (g.withLimit 6) source = scan (g.withLimit 256) source :=
    lookback_exact.2.2 g 6 256 source (by decide) (by decide) hwithin
  exact ⟨hwithin, hsame, by decide +kernel, by decide +kernel⟩

end DeclTags
