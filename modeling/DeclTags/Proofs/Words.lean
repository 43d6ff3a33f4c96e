import DeclTags.Proofs.Enclosing
import DeclTags.Proofs.Faithful
import DeclTags.Proofs.TypeSymbols
import Mathlib.Data.Bool.AllAny
import Mathlib.Data.List.TakeWhile

set_option autoImplicit false

/-! # What the texts of symbols are made of

A name, a modifier or a segment of a path is not any text: they are taken from the words of the
source, and those have no characters but letters, digits, `_` and `$` (`isWord_of_mem`). That
carries over to the symbols of every scan (`scan_inWords`), so what is written between such texts
can be told from them.
-/

namespace DeclTags

/-- A text that a word of a source may have. -/
structure IsWord (text : String) : Prop where
  ne_empty : text ≠ ""
  chars : ∀ c ∈ text.toList, Lexeme.isWordChar c = true

theorem IsWord.not_mem {text : String} (h : IsWord text) {c : Char}
    (hc : Lexeme.isWordChar c = false) : c ∉ text.toList := by
  intro hmem
  rw [h.chars c hmem] at hc
  cases hc

/-! ## Words of the source -/

/-- The head of a text that is lexed as a word consists of characters of words. -/
theorem Lexeme.atHead_word {g : Grammar} {cs : List Char}
    (h : (atHead g cs).kind = .identifier ∨ (atHead g cs).kind = .keyword) :
    cs.take (atHead g cs).size ≠ [] ∧
      ∀ c ∈ cs.take (atHead g cs).size, isWordChar c = true := by
  cases cs with
  | nil => rcases h with h | h <;> cases h
  | cons c rest =>
      revert h
      refine atHead_cases (g := g)
        (motive := fun x => x.kind = .identifier ∨ x.kind = .keyword →
          (c :: rest).take x.size ≠ [] ∧ ∀ d ∈ (c :: rest).take x.size, isWordChar d = true)
        c rest
        ?newline ?lineEnd ?line ?block ?blanks ?verbatims ?strings ?chars ?words ?numbers ?other
      case newline | lineEnd | other => simp
      case line => simp [lineComment]
      case block => simp
      case blanks => simp [blank]
      case verbatims => simp
      case strings => simp
      case chars => simp
      case numbers => simp [number]
      case words =>
        intro hstart _
        simp only [word]
        rw [Text.take_length_takeWhile]
        constructor
        · rw [List.takeWhile_cons_of_pos (isWordChar_of_isWordStart hstart)]
          exact List.cons_ne_nil _ _
        · intro d hd
          exact List.mem_takeWhile_imp hd

/-- Identifiers and keywords of a source are words. -/
theorem isWord_of_mem {g : Grammar} {source : List Char} {t : Token}
    (ht : t ∈ tokensOf g source) (h : t.isWord = true) : IsWord t.text := by
  obtain ⟨l, rfl⟩ := Lexer.exists_headToken ht
  have hkind : (Lexeme.atHead g l.rest).kind = .identifier ∨
      (Lexeme.atHead g l.rest).kind = .keyword := by
    rw [Token.isWord, Bool.or_eq_true, Token.isIdentifier, Token.isKeyword, beq_iff_eq,
      beq_iff_eq] at h
    exact h
  obtain ⟨hne, hchars⟩ := Lexeme.atHead_word hkind
  have htext : (l.headToken g).text.toList = l.rest.take (Lexeme.atHead g l.rest).size :=
    String.toList_ofList
  constructor
  · intro hempty
    rw [hempty] at htext
    exact hne htext.symm
  · intro c hc
    rw [htext] at hc
    exact hchars c hc

theorem mem_pairAt {word : String} {t : Token} {ts : List Token} (h : word ∈ pairAt t ts) :
    t.isWord = true ∧ ∃ second ∈ ts, second.isWord = true ∧
      word = t.text ++ "-" ++ second.text := by
  match ts, h with
  | hyphen :: second :: rest, h =>
    rw [pairAt] at h
    split at h
    · next hpair =>
      simp only [Bool.and_eq_true] at hpair
      obtain ⟨⟨⟨⟨hfirst, -⟩, hsecond⟩, -⟩, -⟩ := hpair
      exact ⟨hfirst, second, by simp, hsecond, List.mem_singleton.mp h⟩
    · cases h

/-- The words of some tokens are one of them, or two with a hyphen between them. -/
theorem mem_wordsOf {word : String} {ts : List Token} (h : word ∈ wordsOf ts) :
    (∃ t ∈ ts, t.isWord = true ∧ word = t.text) ∨
      ∃ a ∈ ts, ∃ b ∈ ts, a.isWord = true ∧ b.isWord = true ∧
        word = a.text ++ "-" ++ b.text := by
  induction ts with
  | nil => cases h
  | cons t ts ih =>
      have hpair : word ∈ pairAt t ts → ∃ a ∈ t :: ts, ∃ b ∈ t :: ts,
          a.isWord = true ∧ b.isWord = true ∧ word = a.text ++ "-" ++ b.text := by
        intro h
        obtain ⟨ht, second, hsecond, hw, hword⟩ := mem_pairAt h
        exact ⟨t, List.mem_cons_self, second, List.mem_cons_of_mem _ hsecond, ht, hw, hword⟩
      rcases List.mem_append.mp h with h | h
      · rw [wordsAt] at h
        split at h
        · next hkeyword =>
          rcases List.mem_cons.mp h with rfl | h
          · exact .inl ⟨t, List.mem_cons_self, Token.isWord_of_isKeyword hkeyword, rfl⟩
          · exact .inr (hpair h)
        · exact .inr (hpair h)
      · rcases ih h with ⟨u, hu, hword⟩ | ⟨a, ha, b, hb, hword⟩
        · exact .inl ⟨u, List.mem_cons_of_mem _ hu, hword⟩
        · exact .inr ⟨a, List.mem_cons_of_mem _ ha, b, List.mem_cons_of_mem _ hb, hword⟩

/-! ## Symbols -/

/-- The names of a symbol and of what is around it are words, and its modifiers are made of them. -/
structure Symbol.InWords (x : Symbol) : Prop where
  name : IsWord x.name
  modifiers : ∀ word ∈ x.modifiers, ∀ c ∈ word.toList, Lexeme.isWordChar c = true ∨ c = '-'
  path : ∀ segment ∈ x.path, IsWord segment ∨ segment = anonymousSegment

/-- Nothing of a segment can be mistaken for what stands around it. -/
theorem not_mem_of_segment {segment : String} (h : IsWord segment ∨ segment = anonymousSegment)
    {c : Char} (hc : c ∈ ['\t', '\n', '.']) : c ∉ segment.toList := by
  have hword : ∀ c ∈ ['\t', '\n', '.'], Lexeme.isWordChar c = false :=
    List.all_iff_forall_prop.1 (by decide)
  have hsegment : ∀ c ∈ ['\t', '\n', '.'], c ∉ anonymousSegment.toList :=
    List.all_iff_forall_prop.1 (by decide)
  rcases h with h | rfl
  · exact h.not_mem (hword c hc)
  · exact hsegment c hc

/-- Every word among the tokens has the text of one. -/
def WordsIn (ts : List Token) : Prop := ∀ t ∈ ts, t.isWord = true → IsWord t.text

theorem WordsIn.mono {ts us : List Token} (h : WordsIn us) (hsub : ts ⊆ us) : WordsIn ts :=
  fun t ht => h t (hsub ht)

theorem WordsIn.chars_of_mem_wordsOf {ts : List Token} (h : WordsIn ts) {word : String}
    (hword : word ∈ wordsOf ts) :
    ∀ c ∈ word.toList, Lexeme.isWordChar c = true ∨ c = '-' := by
  intro c hc
  rcases mem_wordsOf hword with ⟨t, ht, hw, rfl⟩ | ⟨a, ha, b, hb, haw, hbw, rfl⟩
  · exact .inl ((h t ht hw).chars c hc)
  · rw [String.toList_append, String.toList_append, List.append_assoc, List.mem_append] at hc
    rcases hc with hc | hc
    · exact .inl ((h a ha haw).chars c hc)
    · rcases List.mem_append.mp hc with hc | hc
      · exact .inr (List.mem_singleton.mp hc)
      · exact .inl ((h b hb hbw).chars c hc)

namespace Candidate

variable {g : Grammar} {source : String} {tracker : ScopeTracker} {c : Candidate}

/-- What a brace adds to the path is a word of its candidate, unless it opens an anonymous class. -/
theorem segment_isWord (hc : WordsIn c.tokens) {n : Nat} {segment : String}
    (h : (Scan.openerOf n (c.atBrace g source tracker)).segment? = some segment) :
    IsWord segment ∨ segment = anonymousSegment := by
  rcases atBrace_cases g source tracker c with hd | ⟨-, -, hd | hd⟩
  · simp only [List.mem_cons, List.not_mem_nil, or_false] at hd
    rcases hd with hd | hd | hd
    · rw [hd] at h
      cases h
    · rw [hd] at h
      cases h
      exact .inr rfl
    · rw [hd] at h
      cases h
  · obtain ⟨header, hheader, hd⟩ := Option.map_eq_some_iff.mp hd
    rw [← hd] at h
    cases h
    obtain ⟨leading, words, between, hrun, -⟩ := TypeHeader.ofRun?_sound hheader
    have hname := Token.isWord_of_isIdentifier (TypeHeader.name_isIdentifier hheader)
    exact .inl (hc _ (by simp [hrun]) hname)
  · rw [hd] at h
    cases hdecision : c.callableDecision g source tracker true c.tokens with
    | declaration x =>
        rw [hdecision] at h
        cases h
        obtain ⟨shape, tail, hrun, -, rfl, -⟩ :=
          callableDecision_sound (congrArg Decision.symbol? hdecision)
        have hname := Token.isWord_of_isIdentifier shape.name_identifier
        exact .inl (hc _ (by simp [hrun, CallableShape.tokens, CallableShape.call]) hname)
    | type name symbol =>
        have hnot := congrArg Decision.isType hdecision
        rw [callableDecision_not_isType] at hnot
        cases hnot
    | anonymousClass =>
        rw [hdecision] at h
        cases h
        exact .inr rfl
    | controlBlock | unknown | ambiguous =>
        rw [hdecision] at h
        cases h

end Candidate

namespace Scan

variable {g : Grammar} {source : String}

/-- A candidate is made of tokens that were fed. -/
theorem candidate_tokens_subset (ts : List Token) :
    (run g source ts {}).recognizer.candidate.tokens ⊆ ts := by
  have hheld : (run g source ts {}).recognizer.held ⊆ ({} : Scan).recognizer.held ++ ts :=
    (run_held_sublist ts).subset
  intro t ht
  exact hheld (List.mem_append_right _ ht)

/-- The path at any token is made of words. -/
theorem path_inWords {ts : List Token} (hts : WordsIn ts) :
    ∀ segment ∈ (run g source ts {}).tracker.path,
      IsWord segment ∨ segment = anonymousSegment := by
  intro segment hsegment
  rw [path_eq] at hsegment
  obtain ⟨p, -, hp⟩ := List.mem_filterMap.mp hsegment
  -- the brace was decided on by a candidate of tokens that stand in front of it
  refine Candidate.segment_isWord (hts.mono ?_) hp
  exact List.Subset.trans (candidate_tokens_subset _) (List.take_subset _ _)

/-- A symbol that is reported at a token is made of words. -/
theorem symbol?_inWords {ts : List Token} (hts : WordsIn ts) {t : Token} {x : Symbol}
    (h : (run g source ts {}).symbol? g source t = some x) : x.InWords := by
  have hc : WordsIn (run g source ts {}).recognizer.candidate.tokens :=
    hts.mono (candidate_tokens_subset ts)
  have hpath : ∀ segment ∈ x.path, IsWord segment ∨ segment = anonymousSegment := by
    rw [symbol?_path h]
    exact path_inWords hts
  obtain ⟨front, n, hsub, hread⟩ : ∃ front n, front ++ [n] ⊆
      (run g source ts {}).recognizer.candidate.tokens ∧ x.IsReadFrom g front n := by
    obtain ⟨-, -, ⟨-, front, n, rest, hrun, hread⟩ | ⟨shape, tail, path, doc, hrun, rfl, -⟩⟩ :=
      candidate_of_symbol? h
    · refine ⟨front, n, ?_, hread⟩
      rw [hrun, List.append_cons front n rest]
      exact List.subset_append_left _ _
    · refine ⟨shape.front, shape.name, ?_, shape.symbol_isReadFrom source path doc⟩
      have htokens : shape.tokens ++ tail =
          (shape.front ++ [shape.name]) ++ (shape.typeArguments ++ shape.group ++ tail) := by
        simp [CallableShape.tokens, CallableShape.call, CallableShape.front]
      rw [hrun, htokens]
      exact List.subset_append_left _ _
  have hfront := hc.mono hsub
  constructor
  · rw [hread.name_eq]
    exact hfront n (by simp) (Token.isWord_of_isIdentifier hread.identifier)
  · intro word hword
    exact (hfront.mono (List.subset_append_left _ _)).chars_of_mem_wordsOf
      (hread.modifiers.words.subset hword)
  · exact hpath

end Scan

/-- **The symbols of a scan are made of words.** -/
theorem scan_inWords {g : Grammar} {source : List Char} {x : Symbol}
    (hx : x ∈ (scan g source).symbols) : x.InWords := by
  rw [scan_symbols] at hx
  obtain ⟨before, t, after, hts, hsymbol⟩ := Scan.exists_of_mem_reported hx
  refine Scan.symbol?_inWords (fun u hu hw => ?_) hsymbol
  have hmem : u ∈ tokensOf g source := by simp [hts, hu]
  exact isWord_of_mem hmem hw

end DeclTags
