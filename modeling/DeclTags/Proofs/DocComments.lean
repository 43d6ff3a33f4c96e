import DeclTags.Proofs.Boundaries
import DeclTags.Proofs.Findings
import DeclTags.Proofs.TypeSymbols
import Mathlib.Data.List.TakeWhile

set_option autoImplicit false

/-! # Doc comments

A declaration begins with the first token of code behind the boundary before it, and is documented
by the last block comment between the two. That holds because of an invariant of the recognizer
(`Recognizer.StandsBehind`): its candidate is made of the code behind the boundary, outside of
blocks, and the comment is kept with it, or is pending as long as there is no code.

As no token is in two candidates, no comment documents two declarations
(`docComments_follow_adjacency`).
-/

open scoped List

namespace DeclTags

open Candidate (openParens)

/-! ## Fillers and code -/

/-- The text of the last block comment among the tokens. -/
def lastComment? (ts : List Token) : Option String :=
  (ts.filter (·.kind == .blockComment)).getLast?.map Token.text

/-- The comment on the code with which the tokens begin. -/
def docOf? (ts : List Token) : Option String := lastComment? (ts.takeWhile Token.isFiller)

/-- Tokens without code, and not at the end of the input. -/
def AllFiller (ts : List Token) : Prop := ∀ t ∈ ts, t.isFiller = true

theorem lastComment?_concat (ts : List Token) (t : Token) :
    lastComment? (ts ++ [t]) =
      if t.kind = .blockComment then some t.text else lastComment? ts := by
  unfold lastComment?
  rw [List.filter_append]
  by_cases h : t.kind = .blockComment
  · rw [if_pos h, List.filter_cons_of_pos (by simp [h]), List.filter_nil, List.getLast?_concat]
    rfl
  · rw [if_neg h, List.filter_cons_of_neg (by simp [h]), List.filter_nil, List.append_nil]

theorem docOf?_of_allFiller {ts : List Token} (h : AllFiller ts) : docOf? ts = lastComment? ts := by
  rw [docOf?, List.takeWhile_eq_self_iff.mpr h]

theorem docOf?_concat_of_allFiller {ts : List Token} (h : AllFiller ts) (t : Token) :
    docOf? (ts ++ [t]) = if t.kind = .blockComment then some t.text else docOf? ts := by
  rw [docOf?_of_allFiller h, docOf?, List.takeWhile_append_of_pos h]
  by_cases ht : t.isFiller = true
  · rw [List.takeWhile_cons_of_pos ht, List.takeWhile_nil, lastComment?_concat]
  · have hkind : t.kind ≠ .blockComment := by
      intro hk
      simp [Token.isFiller, hk, TokenKind.isComment] at ht
    rw [List.takeWhile_cons_of_neg ht, List.append_nil, if_neg hkind]

/-- Behind code nothing is added to the comment on it. -/
theorem docOf?_append {ts : List Token} (h : ¬AllFiller ts) (us : List Token) :
    docOf? (ts ++ us) = docOf? ts := by
  have hlength : (ts.takeWhile Token.isFiller).length ≠ ts.length := by
    intro hlen
    have hall := (List.takeWhile_prefix Token.isFiller).eq_of_length hlen
    exact h fun t ht => List.mem_takeWhile_imp (hall ▸ ht)
  rw [docOf?, List.takeWhile_append, if_neg hlength, docOf?]

/-! ## The code of a part -/

/-- The tokens of code outside of blocks. -/
def runOf (part : List Token) : List Token := codeTokens (outsideBlocks part)

theorem codeTokens_append (ts us : List Token) :
    codeTokens (ts ++ us) = codeTokens ts ++ codeTokens us := List.filter_append ..

theorem codeTokens_singleton (t : Token) :
    codeTokens [t] = if t.isFiller = true ∨ t.kind = .endOfInput then [] else [t] := by
  unfold codeTokens
  by_cases hend : t.kind = .endOfInput
  · simp [hend]
  · cases ht : t.isFiller <;> simp [ht, hend]

theorem runOf_concat {part : List Token} (h : Unbroken part) {t : Token}
    (hbrace : t.isBrace = false) (hend : t.kind ≠ .endOfInput) :
    runOf (part ++ [t]) = if t.isFiller then runOf part else runOf part ++ [t] := by
  rw [runOf, outsideBlocks_concat h.balanced hbrace, codeTokens_append, codeTokens_singleton, runOf]
  cases ht : t.isFiller <;> simp [hend]

theorem runOf_append_block {part inner : List Token} (h : Unbroken part) {o c : Token}
    (ho : o.isPunct '{' = true) (hc : c.isPunct '}' = true) (hi : Balanced inner) :
    runOf (part ++ (o :: inner ++ [c])) = runOf part := by
  rw [runOf, outsideBlocks_concat_block h.balanced ho hc hi, runOf]

/-- Parentheses are code. -/
theorem openParens_codeTokens (ts : List Token) : openParens (codeTokens ts) = openParens ts := by
  induction ts using List.reverseRecOn with
  | nil => rfl
  | append_singleton ts t ih =>
      rw [codeTokens_append, Candidate.openParens_concat, ← ih]
      rw [codeTokens_singleton]
      split
      · next hno =>
        have hpunct : ∀ c, t.isPunct c = false := by
          intro c
          refine Bool.eq_false_iff.mpr fun hc => ?_
          rw [Token.isPunct_iff] at hc
          simp [Token.isFiller, hc, TokenKind.isBlank, TokenKind.isComment] at hno
        rw [List.append_nil, Candidate.depthAfter, hpunct, hpunct]
        rfl
      · exact Candidate.openParens_concat _ _

/-- The code of an unbroken part begins with its first token of code. -/
theorem head?_runOf {part : List Token} (h : Unbroken part)
    (hend : ∀ t ∈ part, t.kind ≠ .endOfInput) :
    (runOf part).head? = (part.dropWhile Token.isFiller).head? := by
  induction h with
  | nil => rfl
  | @concat seg t h hbrace _ ih =>
      have ih := ih fun u hu => hend u (List.mem_append_left _ hu)
      rw [runOf_concat h hbrace (hend t (by simp)), List.dropWhile_append]
      cases hdrop : seg.dropWhile Token.isFiller with
      | nil =>
          rw [hdrop] at ih
          rw [List.head?_eq_none_iff.mp ih]
          cases ht : t.isFiller <;> simp [ht]
      | cons first rest =>
          rw [hdrop] at ih
          split
          · rw [ih]
            rfl
          · rw [List.head?_append, ih]
            rfl
  | @block seg inner o c h ho hc hi hopen ih =>
      have ih := ih fun u hu => hend u (List.mem_append_left _ hu)
      rw [runOf_append_block h ho hc hi, ih, List.dropWhile_append]
      -- where a parenthesis is open there is code
      cases hdrop : seg.dropWhile Token.isFiller with
      | nil =>
          rw [hdrop] at ih
          rw [← openParens_codeTokens, show codeTokens (outsideBlocks seg) = [] from
            List.head?_eq_none_iff.mp ih] at hopen
          cases hopen
      | cons first rest => rfl

/-- A part without code is made of fillers. -/
theorem runOf_eq_nil_iff {part : List Token} (h : Unbroken part)
    (hend : ∀ t ∈ part, t.kind ≠ .endOfInput) : runOf part = [] ↔ AllFiller part := by
  rw [← List.head?_eq_none_iff, head?_runOf h hend, List.head?_eq_none_iff,
    List.dropWhile_eq_nil_iff, AllFiller]

/-- A block comment in front of the code is the one on it, up to the next one. -/
theorem docOf?_concat {part : List Token} (h : Unbroken part)
    (hend : ∀ t ∈ part, t.kind ≠ .endOfInput) (t : Token) :
    docOf? (part ++ [t]) =
      if t.kind = .blockComment ∧ runOf part = [] then some t.text else docOf? part := by
  by_cases hnone : runOf part = []
  · rw [docOf?_concat_of_allFiller ((runOf_eq_nil_iff h hend).mp hnone)]
    simp only [hnone, and_true]
  · rw [docOf?_append (fun hall => hnone ((runOf_eq_nil_iff h hend).mpr hall)),
      if_neg fun hc => hnone hc.2]

/-! ## What the recognizer keeps -/

namespace Candidate

/-- If there may be tokens in a candidate, those of a run are not all left out. -/
theorem ofRun_isEmpty {limit : Nat} (hlimit : 0 < limit) (doc : Option String) (run : List Token) :
    (ofRun limit doc run).isEmpty = run.isEmpty := by
  induction run using List.reverseRecOn with
  | nil => rfl
  | append_singleton run t ih =>
      have hne : (run ++ [t]).isEmpty = false := by simp
      rw [← ofRun_concat, add, hne]
      simp only
      split
      · rfl
      · next hsize =>
        -- the first token always finds room
        cases run with
        | nil => exact absurd hlimit hsize
        | cons first run => exact ih

end Candidate

namespace Recognizer

/-- Of fillers only a block comment in front of the candidate is taken note of. -/
theorem observe_of_isFiller (g : Grammar) (r : Recognizer) {t : Token} (ht : t.isFiller = true) :
    r.observe g t =
      if t.kind = .blockComment ∧ r.candidate.isEmpty = true then
        { r with pendingDoc := some t.text } else r := by
  unfold observe
  cases hk : t.kind with
  | blank | newline | lineComment => simp
  | blockComment => simp
  | _ => simp [Token.isFiller, hk, TokenKind.isBlank, TokenKind.isComment] at ht

/-- The candidate is made of the code of the part, with the comment on it. As long as there is no
code, the comment is pending. -/
structure IsOfPart (limit : Nat) (part : List Token) (r : Recognizer) : Prop where
  candidate : r.candidate =
    if runOf part = [] then {} else .ofRun limit (docOf? part) (runOf part)
  pendingDoc : r.pendingDoc = if runOf part = [] then docOf? part else none

namespace IsOfPart

variable {g : Grammar} {limit : Nat} {part : List Token} {r : Recognizer} {t : Token}

theorem boundary (limit : Nat) (suspended : List Suspended) :
    (Recognizer.boundary suspended).IsOfPart limit [] := ⟨rfl, rfl⟩

theorem isEmpty_iff (h : r.IsOfPart limit part) (hlimit : 0 < limit) :
    r.candidate.isEmpty = true ↔ runOf part = [] := by
  rw [h.candidate]
  split
  · next hrun => exact iff_of_true rfl hrun
  · rw [Candidate.ofRun_isEmpty hlimit, List.isEmpty_iff]

theorem parenDepth (h : r.IsOfPart limit part) :
    r.candidate.parenDepth = openParens (outsideBlocks part) := by
  rw [h.candidate, ← openParens_codeTokens]
  split
  · next hrun =>
    rw [show codeTokens (outsideBlocks part) = [] from hrun]
    rfl
  · exact Candidate.ofRun_parenDepth ..

/-- A comment in front of the code is kept; other fillers, and comments behind code, are passed
over. -/
theorem observe_filler (h : r.IsOfPart limit part) (hlimit : 0 < limit) (hu : Unbroken part)
    (hend : ∀ u ∈ part, u.kind ≠ .endOfInput) (ht : t.isFiller = true) :
    (r.observe g t).IsOfPart limit (part ++ [t]) := by
  have hbrace := Token.not_isBrace_of_not_structural (Token.not_structural_of_isFiller ht)
  have hkind : t.kind ≠ .endOfInput := by
    intro hk
    simp [Token.isFiller, hk, TokenKind.isBlank, TokenKind.isComment] at ht
  have hrun : runOf (part ++ [t]) = runOf part := by rw [runOf_concat hu hbrace hkind, if_pos ht]
  have hdoc := docOf?_concat hu hend t
  simp only [observe_of_isFiller g r ht, h.isEmpty_iff hlimit]
  split
  · next hcomment =>
    rw [if_pos hcomment] at hdoc
    exact ⟨by rw [hrun, h.candidate, if_pos hcomment.2, if_pos hcomment.2],
      by rw [hrun, if_pos hcomment.2, hdoc]⟩
  · next hother =>
    rw [if_neg hother] at hdoc
    exact ⟨by rw [hrun, hdoc, h.candidate], by rw [hrun, hdoc, h.pendingDoc]⟩

/-- A token of code is added to the candidate, and the first one takes the comment. -/
theorem extend (h : r.IsOfPart g.maxCandidateTokens part) (hlimit : 0 < g.maxCandidateTokens)
    (hu : Unbroken part) (hend : ∀ u ∈ part, u.kind ≠ .endOfInput) (hbrace : t.isBrace = false)
    (ht : t.isFiller = false) (hkind : t.kind ≠ .endOfInput) :
    (r.extend g t).IsOfPart g.maxCandidateTokens (part ++ [t]) := by
  have hrun : runOf (part ++ [t]) = runOf part ++ [t] := by
    rw [runOf_concat hu hbrace hkind, if_neg (by simp [ht])]
  have hnone : ¬runOf (part ++ [t]) = [] := by simp [hrun]
  have hdoc : docOf? (part ++ [t]) = docOf? part := by
    rw [docOf?_concat hu hend, if_neg]
    rintro ⟨hk, -⟩
    simp [Token.isFiller, hk, TokenKind.isComment] at ht
  simp only [Recognizer.extend, h.isEmpty_iff hlimit]
  split
  · next hfirst =>
    refine ⟨?_, by rw [if_neg hnone]⟩
    rw [if_neg hnone, hrun, hdoc, h.candidate, if_pos hfirst, h.pendingDoc, if_pos hfirst, hfirst]
    rfl
  · next hfirst =>
    refine ⟨?_, by rw [if_neg hnone, h.pendingDoc, if_neg hfirst]⟩
    rw [if_neg hnone, hrun, hdoc, h.candidate, if_neg hfirst, Candidate.ofRun_concat]

end IsOfPart

/-- The recognizer keeps what stands behind the boundary before some tokens. -/
def StandsBehind (limit : Nat) (ts : List Token) (r : Recognizer) : Prop :=
  ∃ start part, BeginsBehind ts start part ∧ r.IsOfPart limit part

namespace StandsBehind

variable {g : Grammar} {limit : Nat} {ts : List Token} {r : Recognizer} {t : Token}

theorem boundary (limit : Nat) (suspended : List Suspended) (ts : List Token) {b : Token}
    (hb : b.isStructural = true) (hcount : parenCount (behindBrace (ts ++ [b])) = 0) :
    (Recognizer.boundary suspended).StandsBehind limit (ts ++ [b]) :=
  ⟨ts ++ [b], [], ⟨(List.append_nil _).symm, .inr ⟨ts, b, rfl, hb⟩, hcount, .nil⟩,
    .boundary limit suspended⟩

/-- A token that is no boundary where it stands belongs to the part. -/
theorem observe (h : r.StandsBehind g.maxCandidateTokens ts) (hlimit : 0 < g.maxCandidateTokens)
    (hend : ∀ u ∈ ts ++ [t], u.kind ≠ .endOfInput) (hbrace : t.isBrace = false)
    (hsemicolon : t.isPunct ';' = true → 0 < r.candidate.parenDepth) :
    (r.observe g t).StandsBehind g.maxCandidateTokens (ts ++ [t]) := by
  obtain ⟨start, part, ⟨rfl, hstart, hcount, hu⟩, hpart⟩ := h
  rw [hpart.parenDepth] at hsemicolon
  have hend' : ∀ u ∈ part, u.kind ≠ .endOfInput := fun u hu => hend u (by simp [hu])
  have hkind : t.kind ≠ .endOfInput := hend t (by simp)
  refine ⟨start, part ++ [t], ⟨List.append_assoc .., hstart, hcount, hu.concat hbrace hsemicolon⟩,
    ?_⟩
  cases ht : t.isFiller with
  | true => exact hpart.observe_filler hlimit hu hend' ht
  | false =>
      rw [Scan.observe_code ht hkind]
      exact hpart.extend hlimit hu hend' hbrace ht hkind

/-- Over a block the recognizer keeps what it has, if it stands in parentheses. -/
theorem afterBlock (h : r.StandsBehind limit ts) {o c : Token} {inner : List Token}
    (ho : o.isPunct '{' = true) (hc : c.isPunct '}' = true) (hi : Balanced inner)
    (hopen : 0 < r.candidate.parenDepth) (hend : ∀ u ∈ ts, u.kind ≠ .endOfInput) :
    r.afterBlock.StandsBehind limit (ts ++ (o :: inner ++ [c])) := by
  obtain ⟨start, part, ⟨rfl, hstart, hcount, hu⟩, hpart⟩ := h
  have hparen : 0 < openParens (outsideBlocks part) := by rwa [hpart.parenDepth] at hopen
  have hcode : ¬runOf part = [] := by
    intro hnone
    rw [← openParens_codeTokens, show codeTokens (outsideBlocks part) = [] from hnone] at hparen
    cases hparen
  have hrun := runOf_append_block hu ho hc hi
  have hdoc : docOf? (part ++ (o :: inner ++ [c])) = docOf? part :=
    docOf?_append (fun hall => hcode ((runOf_eq_nil_iff hu fun u hu =>
      hend u (List.mem_append_right _ hu)).mpr hall)) _
  refine ⟨start, part ++ (o :: inner ++ [c]),
    ⟨List.append_assoc .., hstart, hcount, hu.block ho hc hi hparen⟩, ?_, ?_⟩
  · rw [hrun, hdoc, Recognizer.afterBlock, if_pos hopen, hpart.candidate]
  · rw [hrun, if_neg hcode]
    rfl

end StandsBehind

end Recognizer

namespace Scan

variable {g : Grammar}

/-- Where the recognizer is at a boundary, the tokens end with one. -/
theorem standsBehind_of_boundary (source : String) {ts : List Token} {b : Token}
    (hb : b.isStructural = true)
    (h : ∃ suspended, (run g source (ts ++ [b]) {}).recognizer = .boundary suspended) :
    (run g source (ts ++ [b]) {}).recognizer.StandsBehind g.maxCandidateTokens (ts ++ [b]) := by
  obtain ⟨suspended, h⟩ := h
  have hcount : parenCount (behindBrace (ts ++ [b])) = 0 := by
    rw [← run_parenDepth g source, h]
    rfl
  rw [h]
  exact .boundary _ _ _ hb hcount

/-- **The recognizer keeps what stands behind the boundary**, after any tokens before the end of
the input. -/
theorem run_standsBehind (hlimit : 0 < g.maxCandidateTokens) (source : String) (ts : List Token)
    (hend : ∀ t ∈ ts, t.kind ≠ .endOfInput) :
    (run g source ts {}).recognizer.StandsBehind g.maxCandidateTokens ts := by
  induction ts using brace_induction with
  | nil => exact ⟨[], [], ⟨rfl, .inl rfl, rfl, .nil⟩, .boundary _ []⟩
  | opening ts o ho _ =>
      have hb : o.isStructural = true := by simp [Token.isStructural, Token.isBrace, ho]
      refine standsBehind_of_boundary source hb ?_
      rw [run_append, run_cons, run_nil, feed_recognizer_of_opening ho]
      exact ⟨_, rfl⟩
  | plain ts t ht ih =>
      have hts := ih ts (Nat.le_refl _) fun u hu => hend u (List.mem_append_left _ hu)
      have hrun : run g source (ts ++ [t]) {} = (run g source ts {}).feed g source t := by
        rw [run_append, run_cons, run_nil]
      cases hs : t.isPunct ';' with
      | true =>
          have hb : t.isStructural = true := by simp [Token.isStructural, hs]
          have hfeed : (run g source (ts ++ [t]) {}).recognizer = _ :=
            hrun ▸ feed_recognizer_of_semicolon hs
          rw [Recognizer.semicolon] at hfeed
          by_cases hparen : (run g source ts {}).recognizer.inParenGroup = true
          · rw [if_pos hparen] at hfeed
            rw [hfeed]
            exact hts.observe hlimit hend ht fun _ => by
              simpa [Recognizer.inParenGroup] using hparen
          · rw [if_neg hparen] at hfeed
            exact standsBehind_of_boundary source hb ⟨_, hfeed⟩
      | false =>
          have hp : t.isStructural = false := by simp [Token.isStructural, ht, hs]
          rw [hrun, feed_recognizer_of_plain hp]
          exact hts.observe hlimit hend ht fun h => by rw [hs] at h; cases h
  | closing ts c hc ih =>
      have hb : c.isStructural = true := by simp [Token.isStructural, Token.isBrace, hc]
      rcases run_closing_cases g source ts hc with ⟨-, hr⟩ | ⟨before, o, inner, rfl, ho, hi, hr⟩
      · exact standsBehind_of_boundary source hb ⟨_, hr⟩
      · have hend' : ∀ t ∈ before, t.kind ≠ .endOfInput := fun t ht => hend t (by simp [ht])
        by_cases hopen : 0 < (run g source before {}).recognizer.candidate.parenDepth
        · rw [hr, List.append_assoc]
          exact (ih before (by simp) hend').afterBlock ho hc hi hopen hend'
        · refine standsBehind_of_boundary source hb ?_
          rw [hr, Recognizer.afterBlock, if_neg hopen]
          exact ⟨_, rfl⟩

end Scan

/-! ## What a symbol has from its candidate -/

namespace Candidate

variable {g : Grammar} {source : String} {tracker : ScopeTracker} {c : Candidate}
  {run : List Token} {x : Symbol} {d : Decision}

/-- The symbol begins where the run does, and has the comment of the candidate. -/
def Begins (c : Candidate) (run : List Token) (x : Symbol) : Prop :=
  run.head?.map Token.line = some x.startLine ∧ x.docComment = c.doc

theorem typeDecision?_begins (h : c.typeDecision? g source tracker run = some d)
    (hx : d.symbol? = some x) : c.Begins run x := by
  obtain ⟨header, hh, rfl⟩ := Option.map_eq_some_iff.mp h
  obtain ⟨first, rest, rfl⟩ :=
    List.exists_cons_of_ne_nil (List.ne_nil_of_mem (TypeHeader.ofRun?_mem hh).1)
  simp only [Decision.symbol?] at hx
  split at hx
  · cases hx
    exact ⟨rfl, rfl⟩
  · cases hx

theorem callableDecision_begins {withBody : Bool}
    (hx : (c.callableDecision g source tracker withBody run).symbol? = some x) :
    c.Begins run x := by
  unfold callableDecision at hx
  split at hx
  · cases hx
  next header hh =>
  obtain ⟨first, rest, rfl⟩ :=
    List.exists_cons_of_ne_nil (List.ne_nil_of_mem (CallableHeader.ofRun?_mem hh).1)
  split at hx
  · cases hx
  split at hx
  · cases hx
  · cases hx
    exact ⟨rfl, rfl⟩

theorem atBrace_begins (hx : (c.atBrace g source tracker).symbol? = some x) :
    c.Begins c.tokens x := by
  obtain ⟨-, -, h | h⟩ := atBrace_symbol?_cases hx
  · exact typeDecision?_begins h hx
  · exact callableDecision_begins h

/-- What a semicolon judges of a candidate begins where the candidate does. -/
theorem atSemicolon?_begins (h : c.atSemicolon? g source tracker = some d)
    (hx : d.symbol? = some x) : c.Begins c.tokens x := by
  obtain ⟨-, -, rfl⟩ := atSemicolon?_cases h
  obtain ⟨hline, hdoc⟩ := callableDecision_begins hx
  obtain ⟨rest, hrest⟩ := c.member_initial g
  refine ⟨?_, hdoc⟩
  obtain ⟨first, hfirst, -⟩ := Option.map_eq_some_iff.mp hline
  rw [← hrest, List.head?_append, hfirst, Option.some_or, ← hfirst, hline]

end Candidate

/-- What is reported begins where the candidate does that decides it, and has its comment; the
candidate has not too many tokens. -/
theorem Scan.candidate_begins {g : Grammar} {source : String} {s : Scan} {t : Token} {x : Symbol}
    (h : s.symbol? g source t = some x) :
    s.recognizer.candidate.overflowed = false ∧
      s.recognizer.candidate.Begins s.recognizer.candidate.tokens x := by
  obtain ⟨d, hd, hx⟩ := Option.bind_eq_some_iff.mp h
  rcases decision?_cases hd with ⟨-, rfl⟩ | ⟨-, -, hd⟩
  · exact ⟨(Candidate.atBrace_symbol?_cases hx).1, Candidate.atBrace_begins hx⟩
  · exact ⟨(Candidate.atSemicolon?_cases hd).2.1, Candidate.atSemicolon?_begins hd hx⟩

/-! ## Where a symbol is declared -/

/-- The symbol is declared from the token `first` on, which is the first one of code behind the
boundary before its name; `lead` is what stands between the two. -/
def Symbol.IsDeclaredFrom (ts : List Token) (x : Symbol) (lead : List Token) (first : Token) :
    Prop :=
  ∃ before n after start part rest, ts = before ++ n :: after ∧ x.span = .ofToken n ∧
    BeginsBehind before start part ∧ part ++ n :: after = lead ++ first :: rest ∧
    AllFiller lead ∧ first.isFiller = false

/-- Tokens in order can be split in one way at a place. -/
theorem InOrder.split_unique {before before' after after' : List Token} {n n' : Token}
    (h : InOrder (before ++ n :: after)) (hsplit : before ++ n :: after = before' ++ n' :: after')
    (hstart : n.start = n'.start) : before = before' ∧ n = n' ∧ after = after' := by
  have hnot : ∀ {b c : List Token} {m m' : Token} (x : List Token),
      InOrder (b ++ m :: (x ++ m' :: c)) → m.start ≠ m'.start := by
    intro b c m m' x hx
    have hm := List.pairwise_cons.mp (List.pairwise_append.mp hx).2.1
    exact Nat.ne_of_lt (hm.1 m' (by simp)).1
  rcases List.append_eq_append_iff.mp hsplit with ⟨x, rfl, hx⟩ | ⟨x, rfl, hx⟩
  · cases x with
    | nil =>
        obtain ⟨rfl, rfl⟩ := List.cons.inj hx
        exact ⟨(List.append_nil _).symm, rfl, rfl⟩
    | cons m x =>
        obtain ⟨rfl, rfl⟩ := List.cons.inj hx
        exact absurd hstart (hnot x h)
  · cases x with
    | nil =>
        obtain ⟨rfl, rfl⟩ := List.cons.inj hx
        exact ⟨List.append_nil _, rfl, rfl⟩
    | cons m x =>
        obtain ⟨rfl, rfl⟩ := List.cons.inj hx
        rw [List.append_assoc] at h
        exact absurd hstart.symm (hnot x h)

/-- Fillers in front of code are those with which the tokens begin. -/
theorem AllFiller.eq_takeWhile {lead : List Token} {first : Token} (h : AllFiller lead)
    (hfirst : first.isFiller = false) (rest : List Token) :
    (lead ++ first :: rest).takeWhile Token.isFiller = lead := by
  rw [List.takeWhile_append_of_pos h, List.takeWhile_cons_of_neg (by simp [hfirst]),
    List.append_nil]

theorem AllFiller.eq_of_append_eq {lead lead' rest rest' : List Token} {first first' : Token}
    (h : AllFiller lead) (h' : AllFiller lead') (hfirst : first.isFiller = false)
    (hfirst' : first'.isFiller = false) (heq : lead ++ first :: rest = lead' ++ first' :: rest') :
    lead = lead' ∧ first = first' := by
  have hlead : lead = lead' := by
    rw [← h.eq_takeWhile hfirst rest, heq, h'.eq_takeWhile hfirst']
  subst hlead
  exact ⟨rfl, (List.cons.inj (List.append_cancel_left heq)).1⟩

namespace Symbol.IsDeclaredFrom

variable {ts lead lead' : List Token} {x y : Symbol} {first first' : Token}

/-- A symbol is declared from one token on. -/
theorem unique (hts : InOrder ts) (h : x.IsDeclaredFrom ts lead first)
    (h' : x.IsDeclaredFrom ts lead' first') : lead = lead' ∧ first = first' := by
  obtain ⟨before, n, after, start, part, rest, rfl, hn, hbegin, hsplit, hlead, hfirst⟩ := h
  obtain ⟨before', n', after', start', part', rest', hts', hn', hbegin', hsplit', hlead',
    hfirst'⟩ := h'
  have hstart : n.start = n'.start := congrArg Span.startByte (hn.symm.trans hn')
  obtain ⟨rfl, rfl, rfl⟩ := hts.split_unique hts' hstart
  obtain ⟨rfl, rfl⟩ := hbegin.unique hbegin'
  have heq : lead ++ first :: rest = lead' ++ first' :: rest' := hsplit.symm.trans hsplit'
  exact hlead.eq_of_append_eq hlead' hfirst hfirst' heq

/-- Behind a filler in front of a declaration there are only fillers up to its first token. -/
theorem exists_split_of_mem (h : x.IsDeclaredFrom ts lead first) {c : Token} (hc : c ∈ lead) :
    ∃ before between after, ts = before ++ c :: (between ++ first :: after) ∧
      AllFiller between ∧ first.isFiller = false := by
  obtain ⟨before, n, after, start, part, rest, rfl, -, hbegin, hsplit, hlead, hfirst⟩ := h
  obtain ⟨front, between, rfl⟩ := List.append_of_mem hc
  refine ⟨start ++ front, between, rest, ?_, fun u hu => hlead u (by simp [hu]), hfirst⟩
  rw [hbegin.split, List.append_assoc, hsplit]
  simp

/-- A filler stands in front of one declaration only. -/
theorem eq_of_mem (hts : InOrder ts) (h : x.IsDeclaredFrom ts lead first)
    (h' : y.IsDeclaredFrom ts lead' first') {c : Token} (hc : c ∈ lead) (hc' : c ∈ lead') :
    first = first' := by
  obtain ⟨before, between, after, rfl, hbetween, hfirst⟩ := h.exists_split_of_mem hc
  obtain ⟨before', between', after', hts', hbetween', hfirst'⟩ := h'.exists_split_of_mem hc'
  obtain ⟨-, -, heq⟩ := hts.split_unique hts' rfl
  exact (hbetween.eq_of_append_eq hbetween' hfirst hfirst' heq).2

end Symbol.IsDeclaredFrom

/-! ## The symbols of a scan -/

/-- Only the last token can be that of the end of the input. -/
theorem not_endOfInput_of_mem {g : Grammar} {source : List Char} {before after : List Token}
    {t : Token} (hts : tokensOf g source = before ++ t :: after) :
    ∀ u ∈ before, u.kind ≠ .endOfInput := by
  intro u hu hk
  have hmem : u ∈ tokensOf g source := hts ▸ List.mem_append_left _ hu
  obtain ⟨init, hinit, hnone⟩ := Lexer.exists_concat_of_endOfInput g _ u hmem hk
  rcases List.eq_nil_or_concat' after with rfl | ⟨after, last, rfl⟩
  · obtain ⟨rfl, -⟩ := List.append_inj' (hts.symm.trans hinit) rfl
    exact hnone u hu hk
  · have heq : before ++ t :: after ++ [last] = init ++ [u] := by
      rw [← show tokensOf g source = init ++ [u] from hinit, hts]
      simp
    obtain ⟨rfl, -⟩ := List.append_inj' heq rfl
    exact hnone u (by simp [hu]) hk

/-- A name among the code behind the boundary is declared from the first token of that code on. -/
theorem Symbol.isDeclaredFrom_of_mem {before start part : List Token} {n : Token} {x : Symbol}
    (hbegin : BeginsBehind before start part) (hend : ∀ u ∈ part, u.kind ≠ .endOfInput)
    (hn : n ∈ runOf part) (hspan : x.span = .ofToken n) (after : List Token) :
    ∃ first, (runOf part).head? = some first ∧
      x.IsDeclaredFrom (before ++ after) (part.takeWhile Token.isFiller) first := by
  have hhead := head?_runOf hbegin.unbroken hend
  obtain ⟨first, rest, hfirst⟩ : ∃ first rest, part.dropWhile Token.isFiller = first :: rest := by
    refine List.exists_cons_of_ne_nil fun hnone => List.ne_nil_of_mem hn ?_
    rw [← List.head?_eq_none_iff, hhead, hnone, List.head?_nil]
  rw [hfirst, List.head?_cons] at hhead
  have hcode : first.isFiller = false := by
    have hdrop := List.head?_dropWhile_not Token.isFiller part
    rw [hfirst, List.head?_cons] at hdrop
    exact hdrop
  have hlead : part.takeWhile Token.isFiller ++ first :: rest = part := by
    rw [← hfirst, List.takeWhile_append_dropWhile]
  -- the name stands outside of blocks, and what is behind the boundary can be split there
  obtain ⟨front, back, hsplit⟩ := List.append_of_mem (List.mem_of_mem_filter hn)
  obtain ⟨u, v, rfl, hu, -, -, -⟩ := hbegin.unbroken.exists_split hsplit
  refine ⟨first, hhead, start ++ u, n, v ++ after, start, u, rest ++ after, ?_, hspan,
    ⟨rfl, hbegin.boundary, hbegin.outside, hu⟩, ?_, fun w hw => List.mem_takeWhile_imp hw, hcode⟩
  · rw [hbegin.split]
    simp
  · calc u ++ n :: (v ++ after) = u ++ n :: v ++ after := by simp
      _ = (u ++ n :: v).takeWhile Token.isFiller ++ first :: rest ++ after := by rw [hlead]
      _ = (u ++ n :: v).takeWhile Token.isFiller ++ first :: (rest ++ after) := by simp

/-- **What decides on a symbol begins where the symbol is declared.** -/
theorem Scan.finding_isDeclaredFrom {g : Grammar} (hlimit : 0 < g.maxCandidateTokens)
    {source : List Char} {f : Finding} {x : Symbol}
    (hf : f ∈ findings g (String.ofList source) (tokensOf g source) {})
    (hx : f.decision.symbol? = some x) :
    ∃ lead first, x.IsDeclaredFrom (tokensOf g source) lead first ∧
      f.candidate.tokens.head? = some first ∧ x.startLine = first.line ∧
      x.docComment = lastComment? lead := by
  obtain ⟨before, t, after, hts, ht⟩ := mem_findings_iff.mp hf
  obtain ⟨-, hcandidate, hdecision, -, -⟩ := finding?_eq_some_iff.mp ht
  obtain ⟨-, -, hname, hnamed⟩ := finding?_sound ht
  have hsymbol : (run g (String.ofList source) before {}).symbol? g (String.ofList source) t =
      some x := by
    rw [symbol?, hdecision]
    exact hx
  obtain ⟨hflow, hline, hdoc⟩ := candidate_begins hsymbol
  rw [← hcandidate] at hflow hline hdoc
  have hend := not_endOfInput_of_mem hts
  obtain ⟨start, part, hbegin, hpart⟩ := run_standsBehind hlimit (String.ofList source) before hend
  have hmade := hpart.candidate
  rw [← hcandidate] at hmade
  -- there is a name, so there is code behind the boundary, and the candidate is made of it
  have hcode : ¬runOf part = [] := by
    intro hnone
    rw [if_pos hnone] at hmade
    rw [hmade] at hname
    cases hname
  rw [if_neg hcode] at hmade
  have htokens : f.candidate.tokens = runOf part := by
    rw [hmade] at hflow ⊢
    exact Candidate.ofRun_tokens hflow
  have hcomment : x.docComment = docOf? part := by rw [hdoc, hmade, Candidate.ofRun_doc]
  have hendPart : ∀ u ∈ part, u.kind ≠ .endOfInput := fun u hu =>
    hend u (hbegin.split ▸ List.mem_append_right _ hu)
  obtain ⟨first, hhead, hdecl⟩ := Symbol.isDeclaredFrom_of_mem hbegin hendPart
    (htokens ▸ hname) (hnamed.symbol x hx).2 (t :: after)
  rw [htokens, hhead, Option.map_some] at hline
  exact ⟨part.takeWhile Token.isFiller, first, hts ▸ hdecl, htokens ▸ hhead,
    (Option.some.inj hline).symm, hcomment⟩

/-- The first tokens of two symbols of a scan are not the same. -/
theorem Scan.reported_first_pairwise {g : Grammar} (hlimit : 0 < g.maxCandidateTokens)
    (source : List Char) :
    (reported g (String.ofList source) (tokensOf g source) {}).Pairwise fun x y =>
      ∀ lead first lead' first', x.IsDeclaredFrom (tokensOf g source) lead first →
        y.IsDeclaredFrom (tokensOf g source) lead' first' → first ≠ first' := by
  have horder : InOrder (tokensOf g source) := Lexer.tokens_inOrder g (Lexer.ofSource source)
  have hfirsts : ((findings g (String.ofList source) (tokensOf g source) {}).map
      (·.candidate.tokens.head?)).Nodup := findings_first_nodup horder.nodup
  rw [reported_eq_findings, List.pairwise_filterMap]
  refine (List.pairwise_map.mp hfirsts).imp_of_mem ?_
  intro a b ha hb hne x hx y hy lead first lead' first' hdecl hdecl' heq
  obtain ⟨_, f, hf, hhead, -⟩ := finding_isDeclaredFrom hlimit ha hx
  obtain ⟨_, f', hf', hhead', -⟩ := finding_isDeclaredFrom hlimit hb hy
  obtain ⟨-, rfl⟩ := hf.unique horder hdecl
  obtain ⟨-, rfl⟩ := hf'.unique horder hdecl'
  exact hne (by rw [hhead, hhead', heq])

/-- What is reported is also reported where types are. -/
theorem scan_symbols_sublist (g : Grammar) (source : List Char) :
    (scan g source).symbols <+ (scan (g.withTypeSymbols true) source).symbols := by
  cases hemit : g.emitTypeSymbols with
  | true =>
      have hg : g.withTypeSymbols true = g := by rw [Grammar.withTypeSymbols, ← hemit]
      rw [hg]
  | false =>
      have hg : g = (g.withTypeSymbols true).withTypeSymbols false := by
        rw [Grammar.withTypeSymbols, Grammar.withTypeSymbols, ← hemit]
      have hstep : Scan.InStep
          (Scan.run (g.withTypeSymbols true) (String.ofList source) (tokensOf g source) {})
          (Scan.run ((g.withTypeSymbols true).withTypeSymbols false) (String.ofList source)
            (tokensOf g source) {}) := Scan.InStep.init.run _
      rw [← hg] at hstep
      have hsymbols := hstep.finish.symbols
      rw [scan_eq, scan_eq, tokensOf_withTypeSymbols, Scan.result, Scan.result]
      exact hsymbols ▸ List.filter_sublist

/-- **Doc comments follow adjacency.** A symbol is declared from one token on, the first one of code
behind the boundary before its name. Its line is that of this token, and its doc comment is the last
block comment between the two, if there is one. Of all declarations, types that are not reported
among them, no two begin with the same token, and what stands in front of the one does not stand in
front of another. -/
theorem docComments_follow_adjacency {g : Grammar} (hg : g.Compiled) (source : List Char) :
    let ts := tokensOf g source
    let declared := (scan (g.withTypeSymbols true) source).symbols
    (scan g source).symbols <+ declared ∧
    (∀ x ∈ declared, ∃ lead first, x.IsDeclaredFrom ts lead first ∧
      (∀ lead' first', x.IsDeclaredFrom ts lead' first' → lead' = lead ∧ first' = first) ∧
      x.startLine = first.line ∧ x.docComment = lastComment? lead) ∧
    declared.Pairwise fun x y =>
      ∀ lead first lead' first', x.IsDeclaredFrom ts lead first →
        y.IsDeclaredFrom ts lead' first' → first ≠ first' ∧ lead.Disjoint lead' := by
  intro ts declared
  have hlimit : 0 < (g.withTypeSymbols true).maxCandidateTokens := hg.maxCandidateTokens_pos
  have horder : InOrder ts := Lexer.tokens_inOrder g (Lexer.ofSource source)
  have hts : tokensOf (g.withTypeSymbols true) source = ts := tokensOf_withTypeSymbols g true source
  have hdeclared : declared =
      Scan.reported (g.withTypeSymbols true) (String.ofList source) ts {} := by
    rw [← hts]
    exact scan_symbols _ source
  refine ⟨scan_symbols_sublist g source, ?_, ?_⟩
  · intro x hx
    rw [hdeclared, Scan.reported_eq_findings, List.mem_filterMap] at hx
    obtain ⟨f, hf, hx⟩ := hx
    rw [← hts] at hf
    obtain ⟨lead, first, hdecl, -, hline, hdoc⟩ := Scan.finding_isDeclaredFrom hlimit hf hx
    rw [hts] at hdecl
    exact ⟨lead, first, hdecl, fun lead' first' h => h.unique horder hdecl, hline, hdoc⟩
  · have hfirst := Scan.reported_first_pairwise hlimit source
    rw [hts] at hfirst
    rw [hdeclared]
    refine hfirst.imp fun {x y} hne lead first lead' first' hx hy => ?_
    have hfirst : first ≠ first' := hne lead first lead' first' hx hy
    exact ⟨hfirst, fun c hc hc' => hfirst (hx.eq_of_mem horder hy hc hc')⟩

/-- The comment on a class is that of the class, and not of its first method. -/
theorem docComments_of_class_and_method :
    let g : Grammar := .ofProfile .java
    let source := "/** A */ class A \x7b\n  void f() \x7b \x7d \x7d".toList
    let type : Symbol := {
      name := "A"
      kind := .type
      modifiers := []
      parameterText := ""
      startLine := 1
      span := ⟨15, 16, 1, 16⟩
      path := []
      docComment := some "/** A */" }
    let method : Symbol := {
      name := "f"
      kind := .method
      modifiers := []
      parameterText := ""
      startLine := 2
      span := ⟨26, 27, 2, 8⟩
      path := ["A"] }
    g.Compiled ∧
      (∃ lead first, type.IsDeclaredFrom (tokensOf g source) lead first ∧ first.line = 1 ∧
        lastComment? lead = some "/** A */") ∧
      ∃ lead first, method.IsDeclaredFrom (tokensOf g source) lead first ∧ first.line = 2 ∧
        lastComment? lead = none := by
  intro g source type method
  have hg : g.Compiled := builtins_compiled .java (by decide)
  have htype : type ∈ (scan (g.withTypeSymbols true) source).symbols := by decide +kernel
  have hmethod : method ∈ (scan (g.withTypeSymbols true) source).symbols := by decide +kernel
  obtain ⟨-, hdeclared, -⟩ := docComments_follow_adjacency hg source
  obtain ⟨lead, first, hdecl, -, hline, hdoc⟩ := hdeclared type htype
  obtain ⟨lead', first', hdecl', -, hline', hdoc'⟩ := hdeclared method hmethod
  exact ⟨hg, ⟨lead, first, hdecl, hline.symm, hdoc.symm⟩,
    ⟨lead', first', hdecl', hline'.symm, hdoc'.symm⟩⟩

end DeclTags
