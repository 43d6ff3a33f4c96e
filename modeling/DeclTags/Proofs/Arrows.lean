import DeclTags.Proofs.Literals
import DeclTags.Proofs.Lookback
import DeclTags.Proofs.Members

set_option autoImplicit false

/-! # Arrows that can be used

A profile without fault may have any arrow that is not empty and holds neither letters, digits nor
white space. The lexer has an idea of its own of what punctuation is: `_` and `$` are words, and
comments and literals are looked for before anything else. So an arrow is read as punctuation, and
as none that carries structure, exactly if it is `Grammar.ArrowReadable`
(`Lexer.kinds_eq_iff_arrowReadable`).

Where it is, the lexer reads an arrow wherever it comes to one (`Lexer.tokens_arrow`), and a member
with it is found at its semicolon (`Scan.arrows_found`). Not every profile without fault has such an
arrow: `Scan.arrow_not_found`.
-/

namespace DeclTags

open DeclTags.Bracket (parens)
open Candidate (openParens openParens_append_balanced)

/-! ## The arrow of a profile -/

/-- The arrow of a profile without fault is not empty, and has no letters, digits or white space. -/
theorem Profile.Valid.arrow_not_wordy {p : Profile} (h : p.Valid) {arrow : String}
    (harrow : p.expressionBodyArrow = some arrow) : arrow.toList ≠ [] ∧
      ∀ c ∈ arrow.toList, Text.isBlank c = false ∧ Text.isAlphanumeric c = false := by
  have hwordy : isWordyArrow arrow = false := by
    rw [Bool.eq_false_iff]
    intro hwordy
    have hany : p.expressionBodyArrow.any isWordyArrow = true := by rw [harrow]; exact hwordy
    unfold Valid fault? at h
    rw [if_pos hany] at h
    grind
  rw [isWordyArrow, Bool.or_eq_false_iff] at hwordy
  constructor
  · rintro hnil
    rw [String.toList_eq_nil_iff] at hnil
    rw [hnil] at hwordy
    exact absurd hwordy.1 (by decide)
  · intro c hc
    have hany := List.any_eq_false.mp hwordy.2 c hc
    simpa [and_comm] using hany

/-- The characters of an arrow are read as punctuation, and none of them carries structure: no word
begins with one of them, they are no delimiters, and no comment begins where one of them stands. -/
structure Grammar.ArrowReadable (g : Grammar) (arrow : List Char) : Prop where
  no_word : ∀ c ∈ arrow, c ∉ ['_', '$']
  no_structure : ∀ c ∈ arrow, c ∉ ['{', '}', '(', ')', ';']
  no_string : ∀ c ∈ arrow, g.isStringDelimiter c = false
  no_char : ∀ c ∈ arrow, g.isCharDelimiter c = false
  no_comment : ∀ u v, arrow = u ++ v → v ≠ [] → ¬g.BeginsComment v

/-! ## Reading an arrow -/

namespace Lexeme

variable {g : Grammar} {c : Char} {rest : List Char}

/-- A comment that begins at the head of a text is read there, if no white space stands there. -/
theorem atHead_of_comment (hblank : Text.isBlank c = false)
    (hcomment : g.BeginsComment (c :: rest)) : (atHead g (c :: rest)).kind.isComment = true := by
  obtain ⟨hfeed, hreturn⟩ := Text.not_lineEnd_of_not_blank hblank
  simp only [atHead, if_neg hfeed, hreturn, false_and, if_false]
  by_cases hline : g.lineComment.any (startsWith (c :: rest)) = true
  · rw [if_pos hline]
    rfl
  rw [if_neg hline]
  rcases hcomment with ⟨marker, hm, hstart⟩ | ⟨⟨opening, closing⟩, hm, hstart⟩
  · refine absurd ?_ hline
    rw [Option.any_eq_true]
    exact ⟨marker, hm, List.isPrefixOf_iff_prefix.mpr hstart⟩
  · have hblock : g.blockComment.filter (startsWith (c :: rest) ·.1) = some (opening, closing) :=
      Option.filter_eq_some_iff.mpr ⟨hm, List.isPrefixOf_iff_prefix.mpr hstart⟩
    rw [hblock]
    simp [TokenKind.isComment]

/-- Nothing that the lexer looks for before punctuation begins with the character. -/
structure StandsAlone (g : Grammar) (c : Char) (rest : List Char) : Prop where
  no_comment : ¬g.BeginsComment (c :: rest)
  no_verbatim : ∀ marker ∈ g.verbatimPrefixes, ¬g.BeginsVerbatim (c :: rest) marker
  no_string : g.isStringDelimiter c = false
  no_char : g.isCharDelimiter c = false
  no_word : c ∉ ['_', '$']

theorem isWordStart_eq_false_iff (hletter : Text.isAlphanumeric c = false) :
    isWordStart c = false ↔ c ∉ ['_', '$'] := by
  rw [Bool.eq_false_iff, not_iff_not]
  constructor
  · intro h
    simpa [isWordChar, hletter] using isWordChar_of_isWordStart h
  · intro h
    simp only [List.mem_cons, List.not_mem_nil, or_false] at h
    rcases h with rfl | rfl <;> decide

theorem isDigit_eq_false (hletter : Text.isAlphanumeric c = false) : c.isDigit = false := by
  rw [Bool.eq_false_iff]
  intro hd
  have := isNumberChar_of_isDigit hd
  simp only [isNumberChar, hletter, Bool.false_or, Bool.or_eq_true, decide_eq_true_eq] at this
  rcases this with rfl | rfl <;> exact absurd hd (by decide)

/-- A character that is no letter, digit or white space is read as punctuation exactly if it stands
alone. -/
theorem atHead_punctuation_iff (hblank : Text.isBlank c = false)
    (hletter : Text.isAlphanumeric c = false) :
    (atHead g (c :: rest)).kind = .punctuation c ↔ StandsAlone g c rest := by
  have hword := isWordStart_eq_false_iff hletter
  constructor
  · intro h
    have hcomment : ¬g.BeginsComment (c :: rest) := fun hcomment => by
      have := atHead_of_comment hblank hcomment
      rw [h] at this
      cases this
    rw [atHead_of_not_comment hblank hcomment] at h
    cases hverbatim : g.verbatimPrefix? (c :: rest) with
    | some marker =>
        rw [hverbatim] at h
        simp at h
    | none =>
        rw [hverbatim] at h
        simp only at h
        split at h
        · simp at h
        · next hstring =>
          split at h
          · simp at h
          · next hchar =>
            split at h
            · simp at h
            · next hstart =>
              refine ⟨hcomment, fun marker hm hopens => ?_, by simpa using hstring,
                by simpa using hchar, hword.mp (by simpa using hstart)⟩
              exact List.find?_eq_none.mp hverbatim marker hm (Grammar.opensVerbatim_iff.mpr hopens)
  · intro h
    have hdigit := isDigit_eq_false hletter
    rw [atHead_of_not_comment hblank h.no_comment, Grammar.verbatimPrefix?_eq_none h.no_verbatim]
    simp [h.no_string, h.no_char, hword.mpr h.no_word, hdigit]

end Lexeme

namespace Lexer

variable {g : Grammar} {l : Lexer} {cs rest : List Char}

/-- Where each character of a part of the text is read as punctuation, the tokens begin with these
characters, one behind the other. -/
theorem tokens_of_punctuation (hl : l.finished = false) (hrest : l.rest = cs ++ rest)
    (h : ∀ u c v, cs = u ++ c :: v →
      (Lexeme.atHead g (c :: (v ++ rest))).kind = .punctuation c) :
    ∃ mark, l.tokens g = mark ++ (⟨l.cursor.advance cs, rest, false⟩ : Lexer).tokens g ∧
      mark.map Token.kind = cs.map TokenKind.punctuation ∧
      (∀ t ∈ mark.head?, t.start = l.cursor.offset) ∧
      mark.IsChain fun t u => t.stop = u.start := by
  -- the induction is on the characters, with the lexer free: behind one it goes on at the next
  induction cs generalizing l with
  | nil =>
      obtain ⟨cursor, text, finished⟩ := l
      cases hl
      cases hrest
      exact ⟨[], rfl, rfl, by simp, .nil⟩
  | cons c cs ih =>
      have hhead := Lexeme.atHead_eq_of_punctuation (h [] c cs rfl)
      have hwhole : l.TakesWhole g (.punctuation c) [c] (cs ++ rest) :=
        takesWhole_of_atHead hl hrest (by rw [hrest]; exact hhead) TokenKind.noConfusion
      obtain ⟨mark, hmark, hkinds, hstart, hchain⟩ := ih (l := ⟨_, cs ++ rest, false⟩) rfl rfl
        fun u d v hsplit => h (c :: u) d v (by rw [hsplit, List.cons_append])
      refine ⟨_ :: mark, by rw [hwhole.tokens (by simp), hmark]; rfl,
        by rw [List.map_cons, hkinds]; rfl, by simp, ?_⟩
      exact List.isChain_cons.mpr ⟨fun t ht => (hstart t ht).symm, hchain⟩

/-- At the end of the text there is one more token. -/
theorem tokens_at_end (p : Cursor) :
    ((⟨p, [], false⟩ : Lexer).tokens g).map Token.kind = [.endOfInput] := by
  rw [tokens_cons rfl, tokens_finished rfl, ite_self]
  rfl

/-- A text is read as punctuation, one token a character, exactly if each character is where it
stands. -/
theorem kinds_eq_iff (hl : l.finished = false) (hrest : l.rest = cs) :
    (l.tokens g).map Token.kind = cs.map TokenKind.punctuation ++ [.endOfInput] ↔
      ∀ u c v, cs = u ++ c :: v → (Lexeme.atHead g (c :: v)).kind = .punctuation c := by
  constructor
  · intro h
    induction cs generalizing l with
    | nil => exact fun u c v hsplit => by cases u <;> cases hsplit
    | cons c cs ih =>
        -- the first token is the first character, and the others are those behind it
        have hhead : (Lexeme.atHead g (c :: cs)).kind = .punctuation c := by
          rw [tokens_cons hl, List.map_cons, List.map_cons, List.cons_append, List.cons.injEq,
            headToken, hrest] at h
          exact h.1
        have hwhole : l.TakesWhole g (.punctuation c) [c] cs :=
          takesWhole_of_atHead hl hrest
            (by rw [hrest]; exact Lexeme.atHead_eq_of_punctuation hhead) TokenKind.noConfusion
        rw [hwhole.tokens (by simp), List.map_cons, List.map_cons, List.cons_append,
          List.cons.injEq] at h
        have hbehind := ih (l := ⟨_, cs, false⟩) rfl rfl h.2
        intro u d v hsplit
        cases u with
        | nil =>
            obtain ⟨rfl, rfl⟩ := List.cons.inj hsplit
            exact hhead
        | cons x u =>
            obtain ⟨-, hsplit⟩ := List.cons.inj hsplit
            exact hbehind u d v hsplit
  · intro h
    have hrest' : l.rest = cs ++ [] := by rw [hrest, List.append_nil]
    obtain ⟨mark, htokens, hkinds, -⟩ := tokens_of_punctuation hl hrest' fun u c v hsplit => by
      rw [List.append_nil]
      exact h u c v hsplit
    rw [htokens, List.map_append, hkinds, tokens_at_end]

/-! ## The arrow of a profile -/

variable {p : Profile} {arrow : String}

/-- **What an arrow has to be**: the arrow of a profile without fault is read as punctuation, one
token a character and none that carries structure, exactly if it is readable. -/
theorem kinds_eq_iff_arrowReadable (hp : p.Valid) (harrow : p.expressionBodyArrow = some arrow) :
    ((tokensOf (.ofProfile p) arrow.toList).map Token.kind =
        arrow.toList.map TokenKind.punctuation ++ [.endOfInput] ∧
      ∀ c ∈ arrow.toList, c ∉ ['{', '}', '(', ')', ';']) ↔
      (Grammar.ofProfile p).ArrowReadable arrow.toList := by
  have hwordy := hp.arrow_not_wordy harrow
  have hlexer : ((ofSource arrow.toList).tokens (.ofProfile p)).map Token.kind =
      arrow.toList.map TokenKind.punctuation ++ [.endOfInput] ↔ ∀ u c v,
        arrow.toList = u ++ c :: v →
          (Lexeme.atHead (.ofProfile p) (c :: v)).kind = .punctuation c := kinds_eq_iff rfl rfl
  rw [tokensOf, hlexer]
  constructor
  · rintro ⟨hkinds, hstructure⟩
    have halone : ∀ u c v, arrow.toList = u ++ c :: v →
        Lexeme.StandsAlone (.ofProfile p) c v := by
      intro u c v hsplit
      obtain ⟨hblank, hletter⟩ := hwordy.2 c (by simp [hsplit])
      exact (Lexeme.atHead_punctuation_iff hblank hletter).mp (hkinds u c v hsplit)
    have hchar : ∀ c ∈ arrow.toList, ∃ v, Lexeme.StandsAlone (.ofProfile p) c v := by
      intro c hc
      obtain ⟨u, v, hsplit⟩ := List.append_of_mem hc
      exact ⟨v, halone u c v hsplit⟩
    exact {
      no_word := fun c hc => (hchar c hc).elim fun _ h => h.no_word
      no_structure := hstructure
      no_string := fun c hc => (hchar c hc).elim fun _ h => h.no_string
      no_char := fun c hc => (hchar c hc).elim fun _ h => h.no_char
      no_comment := fun u v hsplit hv => by
        obtain ⟨c, v, rfl⟩ := List.exists_cons_of_ne_nil hv
        exact (halone u c v hsplit).no_comment }
  · intro h
    refine ⟨fun u c v hsplit => ?_, h.no_structure⟩
    have hc : c ∈ arrow.toList := by simp [hsplit]
    refine (Lexeme.atHead_punctuation_iff (hwordy.2 c hc).1 (hwordy.2 c hc).2).mpr
      ⟨h.no_comment u _ hsplit (by simp), ?_, h.no_string c hc, h.no_char c hc, h.no_word c hc⟩
    -- a verbatim prefix needs a string delimiter behind it
    rintro marker - ⟨delimiter, rest, hopens, hdelimiter⟩
    have hmem : delimiter ∈ arrow.toList := by
      rw [hsplit, hopens]
      simp
    rw [h.no_string delimiter hmem] at hdelimiter
    cases hdelimiter

/-- **A readable arrow is read wherever it stands**, if no comment and no verbatim string begins in
it and ends behind it. -/
theorem tokens_arrow (hp : p.Valid) (harrow : p.expressionBodyArrow = some arrow)
    (h : (Grammar.ofProfile p).ArrowReadable arrow.toList) (hl : l.finished = false)
    (hrest : l.rest = arrow.toList ++ rest)
    (hcomment : ∀ u v, arrow.toList = u ++ v → v ≠ [] →
      ¬(Grammar.ofProfile p).BeginsComment (v ++ rest))
    (hverbatim : ∀ u v, arrow.toList = u ++ v → v ≠ [] →
      ∀ marker ∈ (Grammar.ofProfile p).verbatimPrefixes,
        ¬(Grammar.ofProfile p).BeginsVerbatim (v ++ rest) marker) :
    ∃ mark, IsArrow (.ofProfile p) mark ∧ l.tokens (.ofProfile p) =
      mark ++ (⟨l.cursor.advance arrow.toList, rest, false⟩ : Lexer).tokens (.ofProfile p) := by
  have hwordy := hp.arrow_not_wordy harrow
  obtain ⟨mark, htokens, hkinds, -, hchain⟩ := tokens_of_punctuation (g := .ofProfile p) hl hrest
    fun u c v hsplit => by
      have hc : c ∈ arrow.toList := by simp [hsplit]
      exact (Lexeme.atHead_punctuation_iff (hwordy.2 c hc).1 (hwordy.2 c hc).2).mpr
        ⟨hcomment u _ hsplit (by simp), hverbatim u _ hsplit (by simp), h.no_string c hc,
          h.no_char c hc, h.no_word c hc⟩
  exact ⟨mark, ⟨arrow, harrow, hkinds, hchain⟩, htokens⟩

end Lexer

/-! ## Members with an arrow -/

theorem Bracket.balanced_of_forall {b : Bracket} {run : List Token}
    (h : ∀ t ∈ run, t.isPunct b.opening = false ∧ t.isPunct b.closing = false) :
    b.Balanced run := by
  induction run with
  | nil => exact Balanced.nil b
  | cons t run ih =>
      obtain ⟨ho, hc⟩ := h t List.mem_cons_self
      exact (closes_cons_other ho hc).mpr (ih fun u hu => h u (List.mem_cons_of_mem _ hu))

/-- The code of a member that is made of names: `type name ( parameters ) arrow value`. -/
structure NamedMember (g : Grammar) where
  type : Token
  name : Token
  opening : Token
  params : List Token
  closing : Token
  mark : List Token
  value : Token
  type_identifier : type.isIdentifier = true
  name_identifier : name.isIdentifier = true
  opening_paren : opening.isPunct '(' = true
  params_names : ∀ t ∈ params, t.isIdentifier = true ∨ t.isPunct ',' = true
  closing_paren : closing.isPunct ')' = true
  mark_arrow : IsArrow g mark
  value_identifier : value.isIdentifier = true

namespace NamedMember

variable {g : Grammar} {tracker : ScopeTracker}

theorem params_not_isPunct (m : NamedMember g) {c : Char} (hc : c ≠ ',') :
    ∀ t ∈ m.params, t.isPunct c = false := by
  intro t ht
  rcases m.params_names t ht with hname | hcomma
  · exact Token.not_isPunct_of_isIdentifier hname c
  · exact Token.not_isPunct_of_ne hcomma hc.symm

/-- The header of the member. -/
def shape (m : NamedMember g) : CallableShape g where
  leading := []
  words := []
  typeParameters := []
  type := [m.type]
  name := m.name
  typeArguments := []
  opening := m.opening
  params := m.params
  closing := m.closing
  leading_reads := ⟨[], [], rfl, .nil, .nil⟩
  typeParameters_angles := IsAngles.nil
  name_identifier := m.name_identifier
  typeArguments_angles := IsAngles.nil
  opening_paren := m.opening_paren
  closing_paren := m.closing_paren
  params_balanced := Bracket.balanced_of_forall fun t ht =>
    ⟨m.params_not_isPunct (by decide) t ht, m.params_not_isPunct (by decide) t ht⟩

/-- The tokens of the member. -/
def tokens (m : NamedMember g) : List Token := m.shape.tokens ++ (m.mark ++ [m.value])

theorem shape_tokens (m : NamedMember g) :
    m.shape.tokens = (m.type :: m.name :: m.opening :: m.params) ++ [m.closing] := by
  simp [CallableShape.tokens, CallableShape.call, CallableShape.group, shape]

/-- A group ends only where the header ends. -/
theorem not_behindGroup (m : NamedMember g) {u v : List Token} (hsplit : m.shape.tokens = u ++ v)
    (hv : v ≠ []) : ¬BehindGroup u := by
  obtain ⟨v, last, rfl⟩ := (List.eq_nil_or_concat' v).resolve_left hv
  rw [m.shape_tokens, ← List.append_assoc] at hsplit
  obtain ⟨hinit, -⟩ := List.append_inj' hsplit rfl
  have hnone : parens.closings (u ++ v) = 0 := by
    rw [← hinit, Bracket.closings, List.countP_eq_zero]
    intro t ht
    rw [Bool.not_eq_true]
    simp only [List.mem_cons] at ht
    rcases ht with rfl | rfl | rfl | ht
    · exact Token.not_isPunct_of_isIdentifier m.type_identifier ')'
    · exact Token.not_isPunct_of_isIdentifier m.name_identifier ')'
    · exact Token.not_isPunct_of_ne m.opening_paren (by decide)
    · exact m.params_not_isPunct (by decide) t ht
  rw [Bracket.closings_append] at hnone
  rintro ⟨-, hpos⟩
  omega

theorem shape_balanced (m : NamedMember g) : parens.Balanced m.shape.tokens := by
  have htokens : m.shape.tokens = [m.type, m.name] ++ m.shape.group := by
    rw [m.shape_tokens]
    simp [CallableShape.group, shape]
  -- two names, and the group
  rw [htokens]
  refine Bracket.Balanced.append (Bracket.balanced_of_forall fun t ht => ?_)
    (m.shape.group_isGroup.balanced (by decide))
  have hidentifier : t.isIdentifier = true := by
    simp only [List.mem_cons, List.not_mem_nil, or_false] at ht
    rcases ht with rfl | rfl
    · exact m.type_identifier
    · exact m.name_identifier
  have := Token.not_isPunct_of_isIdentifier hidentifier
  exact ⟨this _, this _⟩

theorem partsApart (m : NamedMember g) : m.shape.PartsApart true [] [] where
  leading_stops := by
    refine CallableShape.stops_of_word (Token.isWord_of_isIdentifier m.type_identifier) ?_ rfl
    rw [Token.not_isKeyword_of_isIdentifier m.type_identifier, Bool.false_and]
  type_not_angle := Token.not_isPunct_of_isIdentifier m.type_identifier _
  tokens_balanced := m.shape_balanced
  tail := ⟨.inl rfl, .inl rfl⟩
  no_early_clause := fun u t v hsplit _ => by
    rw [List.append_nil] at hsplit
    exact m.not_behindGroup hsplit (by simp)

theorem declares (m : NamedMember g) : Candidate.Declares g tracker true m.shape where
  type_or_owner := .inl
    ⟨fun t ht => by
      rw [List.mem_singleton.mp ht, isTypeToken, beq_iff_eq.mp m.type_identifier],
    _, rfl, .inl m.type_identifier⟩
  params_parameters := fun u t v hsplit => by
    rcases m.params_names t (by rw [show m.params = u ++ t :: v from hsplit]; simp) with ht | ht
    · have hk := Token.not_isKeyword_of_isIdentifier ht
      rw [Token.isIdentifier, beq_iff_eq] at ht
      exact fun _ => ⟨by simp [ht, TokenKind.isLiteral], by simp [hk]⟩
    · exact readsAsParameter_of_isPunct ht

/-- The tokens of a readable arrow carry no structure and are no parentheses. -/
theorem mark_not_isPunct {arrow : String} (harrow : g.expressionBodyArrow = some arrow)
    (hg : g.ArrowReadable arrow.toList) (m : NamedMember g) {c : Char}
    (hc : c ∈ ['{', '}', '(', ')', ';']) : ∀ t ∈ m.mark, t.isPunct c = false := by
  intro t ht
  obtain ⟨other, hother, hkinds, -⟩ := m.mark_arrow
  rw [harrow, Option.some.injEq] at hother
  subst hother
  rw [Bool.eq_false_iff, ne_eq, Token.isPunct_iff]
  intro hkind
  have hmem : TokenKind.punctuation c ∈ arrow.toList.map TokenKind.punctuation := by
    rw [← hkinds, ← hkind]
    exact List.mem_map_of_mem ht
  obtain ⟨d, hd, heq⟩ := List.mem_map.mp hmem
  cases heq
  exact hg.no_structure c hd hc

theorem tokens_balanced {arrow : String} (harrow : g.expressionBodyArrow = some arrow)
    (hg : g.ArrowReadable arrow.toList) (m : NamedMember g) : parens.Balanced m.tokens := by
  refine m.shape_balanced.append (Bracket.balanced_of_forall fun t ht => ?_)
  rcases List.mem_append.mp ht with ht | ht
  · exact ⟨mark_not_isPunct harrow hg m (by decide) t ht,
      mark_not_isPunct harrow hg m (by decide) t ht⟩
  · rw [List.mem_singleton.mp ht]
    have := Token.not_isPunct_of_isIdentifier m.value_identifier
    exact ⟨this _, this _⟩

/-- No token of the member carries structure. -/
theorem not_structural {arrow : String} (harrow : g.expressionBodyArrow = some arrow)
    (hg : g.ArrowReadable arrow.toList) (m : NamedMember g) :
    ∀ t ∈ m.tokens, t.isStructural = false := by
  have hword : ∀ {t : Token}, t.isIdentifier = true → t.isStructural = false := fun ht => by
    have := Token.not_isPunct_of_isIdentifier ht
    simp [Token.isStructural, Token.isBrace, this]
  have hparen : ∀ {t : Token} {c : Char}, t.isPunct c = true → c ∉ ['{', '}', ';'] →
      t.isStructural = false := fun {t c} ht hc => by
    have : ∀ d ∈ ['{', '}', ';'], t.isPunct d = false := fun d hd =>
      Token.not_isPunct_of_ne ht fun h => hc (h ▸ hd)
    simp [Token.isStructural, Token.isBrace, this]
  intro t ht
  simp only [tokens, m.shape_tokens, List.mem_append, List.mem_cons, List.not_mem_nil,
    or_false] at ht
  rcases ht with ((rfl | rfl | rfl | ht) | rfl) | ht | rfl
  · exact hword m.type_identifier
  · exact hword m.name_identifier
  · exact hparen m.opening_paren (by decide)
  · rcases m.params_names t ht with ht | ht
    · exact hword ht
    · exact hparen ht (by decide)
  · exact hparen m.closing_paren (by decide)
  · have := fun c hc => mark_not_isPunct harrow hg m (c := c) hc t ht
    simp [Token.isStructural, Token.isBrace, this]
  · exact hword m.value_identifier

/-- **A member with a readable arrow is decided at its semicolon.** -/
theorem atSemicolon? (hstands : g.ArrowStands)
    (hbodyless : g.bodylessDeclarations = true) (hin : tracker.InType) (m : NamedMember g)
    (hlen : m.tokens.length ≤ g.maxCandidateTokens) (source : String) (doc : Option String) :
    (Candidate.ofRun g.maxCandidateTokens doc m.tokens).atSemicolon? g source tracker =
      some (.declaration (m.shape.symbol source tracker.path doc)) := by
  have hending : Ending g (some .expressionBody) (m.mark ++ [m.value]) :=
    .expressionBody m.mark_arrow (by simp)
  have hgroup : BehindGroup m.shape.tokens :=
    ⟨by simpa using m.shape_balanced.all.symm, m.shape.closings_pos⟩
  have htail := hending.memberTail? hstands m.shape_balanced hgroup fun u v hsplit hv hu =>
    absurd hu (m.not_behindGroup hsplit hv)
  have htokens := Candidate.ofRun_tokens (Candidate.ofRun_overflowed doc hlen)
  have hmay := Candidate.mayBeMember_ofRun hbodyless hin doc hlen
    (by simp [tokens, m.shape.tokens_ne_nil])
  have hrun : m.tokens = m.shape.tokens ++ [] ++ [] ++ (m.mark ++ [m.value]) := by
    simp [tokens]
  rw [Candidate.atSemicolon?_complete m.partsApart m.declares (.inl rfl) hending
    (by simpa using htail) (htokens.trans hrun) hmay, Candidate.ofRun_doc]

end NamedMember

theorem Grammar.ArrowReadable.stands {p : Profile} {arrow : String} (hp : p.Valid)
    (harrow : p.expressionBodyArrow = some arrow)
    (h : (Grammar.ofProfile p).ArrowReadable arrow.toList) : (Grammar.ofProfile p).ArrowStands := by
  intro other hother
  rw [Option.mem_def, show (Grammar.ofProfile p).expressionBodyArrow = some arrow from harrow,
    Option.some.injEq] at hother
  subst hother
  refine ⟨(hp.arrow_not_wordy harrow).1, fun c hc hparen => ?_⟩
  refine h.no_structure c (List.mem_of_mem_head? hc) ?_
  simp only [List.mem_cons, List.not_mem_nil, or_false] at hparen
  rcases hparen with rfl | rfl <;> decide

namespace Scan

variable {g : Grammar} {source : String} {s : Scan} {t : Token} {ts code : List Token}

/-- Tokens without structure leave the scopes as they are, and are added to the candidate if they
are code. -/
theorem run_plain (source : String) (hts : ∀ t ∈ ts, t.isStructural = false)
    (h : s.recognizer.candidate.IsOf g.maxCandidateTokens code) :
    (run g source ts s).tracker = s.tracker ∧
      (run g source ts s).recognizer.candidate.IsOf g.maxCandidateTokens
        (code ++ codeTokens ts) := by
  induction ts using List.reverseRecOn with
  | nil => exact ⟨rfl, by rwa [codeTokens, List.filter_nil, List.append_nil]⟩
  | append_singleton ts t ih =>
      obtain ⟨htracker, hcandidate⟩ := ih fun u hu => hts u (List.mem_append_left _ hu)
      have ht := hts t (by simp)
      rw [run_append, run_cons, run_nil,
        feed_tracker_of_not_isBrace (Token.not_isBrace_of_not_structural ht),
        feed_recognizer_of_plain ht, codeTokens_append, ← List.append_assoc]
      exact ⟨htracker, Recognizer.observe_isOf hcandidate⟩

/-- **A member with a readable arrow is found**: at its semicolon it is reported, whatever white
space and comments there are between its tokens. -/
theorem symbol?_of_namedMember {arrow : String} (harrow : g.expressionBodyArrow = some arrow)
    (hg : g.ArrowReadable arrow.toList) (hstands : g.ArrowStands)
    (hbodyless : g.bodylessDeclarations = true) (hin : s.tracker.InType)
    (hstart : s.recognizer.candidate = {}) {m : NamedMember g} (hcode : codeTokens ts = m.tokens)
    (hlen : m.tokens.length ≤ g.maxCandidateTokens) (ht : t.isPunct ';' = true) :
    ∃ doc, (run g source ts s).symbol? g source t =
      some (m.shape.symbol source s.tracker.path doc) := by
  have hts : ∀ u ∈ ts, u.isStructural = false := fun u hu => by
    by_contra hstructural
    -- a token with structure is code, so it would be a token of the member
    have hmem : u ∈ codeTokens ts := by
      refine List.mem_filter.mpr ⟨hu, ?_⟩
      have hfiller : u.isFiller = false := by
        rw [Bool.eq_false_iff]
        exact fun h => hstructural (Token.not_structural_of_isFiller h)
      have hend : u.kind ≠ .endOfInput := fun h => by
        simp [Token.isStructural, Token.isBrace, Token.isPunct, h] at hstructural
      simp [hfiller, hend]
    exact hstructural (NamedMember.not_structural harrow hg m u (hcode ▸ hmem))
  obtain ⟨htracker, doc, hcandidate⟩ := run_plain source hts
    (hstart ▸ Candidate.IsOf.nil g.maxCandidateTokens)
  rw [List.nil_append, hcode] at hcandidate
  -- the parentheses of the member match, so the semicolon stands in no group
  have hparen : (run g source ts s).recognizer.inParenGroup = false := by
    have hopen : openParens m.tokens = 0 :=
      openParens_append_balanced [] (m.tokens_balanced harrow hg)
    rw [Recognizer.inParenGroup, hcandidate, Candidate.ofRun_parenDepth, hopen]
    rfl
  refine ⟨doc, ?_⟩
  rw [symbol?, decision?_of_semicolon ht, Recognizer.semicolon, hparen,
    if_neg Bool.false_ne_true, hcandidate, htracker,
    m.atSemicolon? hstands hbodyless hin hlen source doc]
  rfl

/-- **What can be used as an arrow**: that of a profile without fault is read as punctuation that
carries no structure, one token a character, exactly if it is readable. Then the lexer reads it
wherever it comes to it, and every member with it is found. -/
theorem arrows_found {p : Profile} {arrow : String} (hp : p.Valid)
    (harrow : p.expressionBodyArrow = some arrow) :
    let g := Grammar.ofProfile p
    ((tokensOf g arrow.toList).map Token.kind =
          arrow.toList.map TokenKind.punctuation ++ [.endOfInput] ∧
        (∀ c ∈ arrow.toList, c ∉ ['{', '}', '(', ')', ';']) ↔ g.ArrowReadable arrow.toList) ∧
      (g.ArrowReadable arrow.toList →
        (∀ (l : Lexer) (rest : List Char), l.finished = false → l.rest = arrow.toList ++ rest →
          (∀ u v, arrow.toList = u ++ v → v ≠ [] → ¬g.BeginsComment (v ++ rest)) →
          (∀ u v, arrow.toList = u ++ v → v ≠ [] → ∀ marker ∈ g.verbatimPrefixes,
            ¬g.BeginsVerbatim (v ++ rest) marker) →
          ∃ mark, IsArrow g mark ∧ l.tokens g =
            mark ++ (⟨l.cursor.advance arrow.toList, rest, false⟩ : Lexer).tokens g) ∧
        (p.bodylessDeclarations = true → ∀ (source : String) (s : Scan) (ts : List Token)
          (m : NamedMember g) (t : Token), s.tracker.InType → s.recognizer.candidate = {} →
          codeTokens ts = m.tokens → m.tokens.length ≤ p.maxCandidateTokens →
          t.isPunct ';' = true →
          ∃ doc, (run g source ts s).symbol? g source t =
            some (m.shape.symbol source s.tracker.path doc))) := by
  refine ⟨Lexer.kinds_eq_iff_arrowReadable hp harrow, fun h => ⟨?_, ?_⟩⟩
  · exact fun l rest hl hrest hcomment hverbatim =>
      Lexer.tokens_arrow hp harrow h hl hrest hcomment hverbatim
  · exact fun hbodyless source s ts m t hin hstart hcode hlen ht =>
      symbol?_of_namedMember harrow h (h.stands hp harrow) hbodyless hin hstart hcode hlen ht

open Candidate (placed)

/-- A language with classes and an arrow. -/
def arrowProfile (arrow : String) : Profile :=
  { name := "x", typeDeclarationKeywords := ["class"], expressionBodyArrow := some arrow }

/-- `T f(a) => x` -/
def expressionMember : NamedMember (.ofProfile (arrowProfile "=>")) where
  type := placed .identifier "T" 0
  name := placed .identifier "f" 2
  opening := placed (.punctuation '(') "(" 3
  params := [placed .identifier "a" 4]
  closing := placed (.punctuation ')') ")" 5
  mark := [placed (.punctuation '=') "=" 7, placed (.punctuation '>') ">" 8]
  value := placed .identifier "x" 10
  type_identifier := rfl
  name_identifier := rfl
  opening_paren := rfl
  params_names := by decide
  closing_paren := rfl
  mark_arrow := ⟨"=>", rfl, rfl, by decide⟩
  value_identifier := rfl

/-- A member with a readable arrow. -/
theorem arrows_found_of_member :
    let p := arrowProfile "=>"
    let g := Grammar.ofProfile p
    let source := "T f(a) => x;"
    let s : Scan := { tracker := { scopes := [⟨0, .type "A" none, 1, 0⟩] } }
    let ts := tokensOf g "T f(a) => x".toList
    p.Valid ∧ p.expressionBodyArrow = some "=>" ∧
      g.ArrowReadable "=>".toList ∧ s.tracker.InType ∧ codeTokens ts = expressionMember.tokens ∧
      ∃ x, (run g source ts s).symbol? g source (placed (.punctuation ';') ";" 11) = some x ∧
        x.name = "f" ∧ x.kind = .method ∧ x.parameterText = "a" ∧ x.path = ["A"] := by
  intro p g source s ts
  have hvalid : p.Valid := by decide +kernel
  have harrow : p.expressionBodyArrow = some "=>" := rfl
  have hread : (tokensOf g "=>".toList).map Token.kind =
      "=>".toList.map TokenKind.punctuation ++ [.endOfInput] := by decide +kernel
  have hstructure : ∀ c ∈ "=>".toList, c ∉ ['{', '}', '(', ')', ';'] := by
    rw [show "=>".toList = ['=', '>'] from rfl, List.forall_mem_cons, List.forall_mem_singleton]
    decide
  have hreadable : g.ArrowReadable "=>".toList :=
    (arrows_found hvalid harrow).1.mp ⟨hread, hstructure⟩
  have hin : s.tracker.InType := ⟨_, [], "A", none, rfl, rfl⟩
  have hcode : codeTokens ts = expressionMember.tokens := by decide +kernel
  obtain ⟨doc, hsymbol⟩ := ((arrows_found hvalid harrow).2 hreadable).2 rfl source s ts
    expressionMember (placed (.punctuation ';') ";" 11) hin rfl hcode (by decide +kernel) rfl
  have htext : Text.slice 4 5 source = "a" := by decide +kernel
  exact ⟨hvalid, harrow, hreadable, hin, hcode, _, hsymbol, rfl, rfl, htext, rfl⟩

/-- **Not every arrow of a profile without fault can be used**: a low line is the beginning of a
word, so it is read as one, and no member with such an arrow is found. -/
theorem arrow_not_found :
    let p := arrowProfile "_"
    let g := Grammar.ofProfile p
    p.Valid ∧ p.expressionBodyArrow = some "_" ∧ p.bodylessDeclarations = true ∧
      ¬((tokensOf g "_".toList).map Token.kind =
          "_".toList.map TokenKind.punctuation ++ [.endOfInput] ∧
        ∀ c ∈ "_".toList, c ∉ ['{', '}', '(', ')', ';']) ∧
      (scan g "class A \x7b T f() _ x; \x7d".toList).symbols = [] := by
  have hkinds : (tokensOf (.ofProfile (arrowProfile "_")) "_".toList).map Token.kind =
      [.identifier, .endOfInput] := by decide +kernel
  refine ⟨by decide +kernel, rfl, rfl, ?_, by decide +kernel⟩
  rw [hkinds]
  rintro ⟨hread, -⟩
  exact absurd hread (by decide)

end Scan

end DeclTags
