import DeclTags.Proofs.Layout
import DeclTags.Proofs.OnlyDeclarations
import DeclTags.Proofs.SourceOrder
import DeclTags.Proofs.Unbroken

set_option autoImplicit false

/-! # Symbols are faithful to the source

What a symbol tells of its declaration can be read off the code tokens of the source
(`Symbol.Faithful`): its name is an identifier and no word of the profile, its modifiers are words
of the declaration in front of the name, in that order, and its parameters are the text between the
parentheses behind the name. That is so of every symbol of every scan (`scan_symbols_faithful`).

The recognizer works on a candidate, from which comments and blocks are missing. That a modifier or
the name comes from it is known of the shapes of headers; where the candidate stands in the source
is known of `Unbroken` parts. What remains is that leaving tokens out makes no new words
(`wordsOf_sublist`), and that no parenthesis is open in front of the parameters, so that no block is
left out there. The exception are type arguments with a `)` among them
(`parameters_behind_block`).
-/

open scoped List

namespace DeclTags

open DeclTags.Bracket (parens)
open DeclTags.Candidate (openParens)

/-! ## The words of a declaration -/

/-- The word that a token makes with a hyphen and another word behind it, without space. -/
def pairAt (t : Token) : List Token → List String
  | hyphen :: second :: _ =>
    if t.isWord && hyphen.isPunct '-' && second.isWord && t.stop == hyphen.start
        && hyphen.stop == second.start then
      [t.text ++ "-" ++ second.text]
    else []
  | _ => []

/-- The words that begin with the first of the tokens `t :: ts`. -/
def wordsAt (t : Token) (ts : List Token) : List String :=
  if t.isKeyword then t.text :: pairAt t ts else pairAt t ts

/-- The keywords and the hyphenated pairs among the tokens, in order. -/
def wordsOf : List Token → List String
  | [] => []
  | t :: ts => wordsAt t ts ++ wordsOf ts

/-- Of tokens in order, one that touches the first is the second. -/
theorem InOrder.eq_cons_of_touching {a b : Token} {run ts : List Token} (hts : InOrder (a :: ts))
    (h : b :: run <+ ts) (htouch : a.stop = b.start) : ∃ us, ts = b :: us ∧ run <+ us := by
  cases h with
  | @cons _ us c h =>
      exact absurd htouch (hts.not_adjacent b (h.subset List.mem_cons_self))
  | cons_cons _ h => exact ⟨_, rfl, h⟩

theorem pairAt_sublist {t : Token} {run ts : List Token} (h : run <+ ts)
    (hts : InOrder (t :: ts)) : pairAt t run <+ pairAt t ts := by
  match run, h with
  | [], _ => exact List.nil_sublist _
  | [_], _ => exact List.nil_sublist _
  | hyphen :: second :: run, h =>
    rw [pairAt]
    split
    · next hpair =>
      -- the three touch, so they are neighbours among the other tokens, too
      have htouch := hpair
      simp only [Bool.and_eq_true, beq_iff_eq] at htouch
      obtain ⟨us, rfl, hus⟩ := hts.eq_cons_of_touching h htouch.1.2
      have hrest : InOrder (hyphen :: us) := List.Pairwise.of_cons hts
      obtain ⟨vs, rfl, -⟩ := hrest.eq_cons_of_touching hus htouch.2
      rw [pairAt, if_pos hpair]
    · exact List.nil_sublist _

/-- Leaving out tokens makes no new words. -/
theorem wordsOf_sublist {run ts : List Token} (h : run <+ ts) (hts : InOrder ts) :
    wordsOf run <+ wordsOf ts := by
  induction h with
  | slnil => exact .slnil
  | cons t _ ih =>
      exact (ih (List.Pairwise.of_cons hts)).trans (List.sublist_append_right _ _)
  | @cons_cons run ts t h ih =>
      have hat : wordsAt t run <+ wordsAt t ts := by
        have hpair := pairAt_sublist h hts
        unfold wordsAt
        split
        · exact hpair.cons_cons _
        · exact hpair
      exact hat.append (ih (List.Pairwise.of_cons hts))

theorem wordsOf_suffix (part run : List Token) : wordsOf run <+ wordsOf (part ++ run) := by
  induction part with
  | nil => exact List.Sublist.refl _
  | cons t part ih => exact ih.trans (List.sublist_append_right _ _)

/-! ## Modifiers -/

theorem eraseDups_nodup_and_sublist (words : List String) :
    words.eraseDups.Nodup ∧ words.eraseDups <+ words := by
  induction words using List.reverseRecOn with
  | nil => exact ⟨List.nodup_nil, .slnil⟩
  | append_singleton words word ih =>
      by_cases hw : word ∈ words
      · have heq : (words ++ [word]).eraseDups = words.eraseDups := by
          simp [List.eraseDups_append, List.removeAll, hw]
        rw [heq]
        exact ⟨ih.1, ih.2.trans (List.sublist_append_left _ _)⟩
      · have heq : (words ++ [word]).eraseDups = words.eraseDups ++ [word] := by
          simp [List.eraseDups_append, List.eraseDups_cons, List.removeAll, hw]
        rw [heq]
        refine ⟨List.nodup_append.mpr ⟨ih.1, List.pairwise_singleton _ _, ?_⟩,
          ih.2.append (List.Sublist.refl _)⟩
        rintro other hother _ hword rfl
        rw [List.mem_singleton.mp hword, List.mem_eraseDups] at hother
        exact hw hother

/-- What the modifiers of a symbol are, `front` being the tokens of its declaration in front of the
name: different words of the grammar, and among the words of the declaration in that order. -/
structure AreModifiers (g : Grammar) (modifiers : List String) (front : List Token) : Prop where
  nodup : modifiers.Nodup
  mem : ∀ word ∈ modifiers, g.isModifier word = true
  words : modifiers <+ wordsOf front

namespace Leading

variable {g : Grammar} {run leading : List Token} {words : List String}

theorem Pieces.words_sublist (h : Pieces g run words) (rest : List Token) :
    words <+ wordsOf (run ++ rest) := by
  induction h with
  | nil => exact List.nil_sublist _
  | @cons piece run word words hpiece _ ih =>
      rw [List.append_assoc]
      cases hpiece with
      | annotated => exact ih.trans (wordsOf_suffix _ _)
      | @keyword t hkeyword _ =>
          have hat : [t.text] <+ wordsAt t (run ++ rest) := by
            rw [wordsAt, if_pos hkeyword]
            exact (List.nil_sublist _).cons_cons _
          exact hat.append ih
      | @hyphenated first hyphen second hfirst hhyphen hsecond htouch _ _ =>
          have hpair : pairAt first (hyphen :: second :: (run ++ rest)) =
              [first.text ++ "-" ++ second.text] := by
            simp [pairAt, hfirst, hhyphen, hsecond, htouch]
          have hat : [first.text ++ "-" ++ second.text] <+
              wordsAt first (hyphen :: second :: (run ++ rest)) := by
            rw [wordsAt, hpair]
            split
            · exact List.sublist_cons_self _ _
            · exact List.Sublist.refl _
          exact hat.append (ih.trans (wordsOf_suffix [hyphen, second] _))

theorem Pieces.words_modifiers (h : Pieces g run words) :
    ∀ word ∈ words, g.isModifier word = true := by
  induction h with
  | nil => simp
  | @cons piece run word words hpiece _ ih =>
      intro w hw
      rcases List.mem_append.mp hw with hw | hw
      · cases hpiece with
        | annotated => cases hw
        | keyword _ hmodifier => rwa [List.mem_singleton.mp hw]
        | hyphenated _ _ _ _ hmodifier _ => rwa [List.mem_singleton.mp hw]
      · exact ih w hw

/-- The modifiers of a leading part are what is asked of them, whatever stands behind it. -/
theorem Reads.areModifiers (h : Reads g leading words) (rest : List Token) :
    AreModifiers g words.eraseDups (leading ++ rest) := by
  obtain ⟨lists, pieces, rfl, -, hpieces⟩ := h
  obtain ⟨hnodup, hsub⟩ := eraseDups_nodup_and_sublist words
  refine ⟨hnodup, fun word hword => ?_, ?_⟩
  · exact hpieces.words_modifiers word (hsub.subset hword)
  · rw [List.append_assoc]
    exact (hsub.trans (hpieces.words_sublist rest)).trans (wordsOf_suffix lists _)

end Leading

/-! ## What a symbol is read from -/

/-- The symbol is read from tokens that begin with `front` and its name `n`. -/
structure Symbol.IsReadFrom (g : Grammar) (x : Symbol) (front : List Token) (n : Token) : Prop where
  identifier : n.isIdentifier = true
  name_eq : x.name = n.text
  span_eq : x.span = .ofToken n
  line_eq : (front ++ [n]).head?.map Token.line = some x.startLine
  modifiers : AreModifiers g x.modifiers front

/-- Doc comments are read elsewhere. -/
theorem Symbol.IsReadFrom.of_undocumented {g : Grammar} {x : Symbol} {front : List Token}
    {n : Token} (h : x.undocumented.IsReadFrom g front n) : x.IsReadFrom g front n :=
  ⟨h.identifier, h.name_eq, h.span_eq, h.line_eq, h.modifiers⟩

namespace CallableShape

variable {g : Grammar}

/-- The tokens in front of the name. -/
def front (s : CallableShape g) : List Token := s.leading ++ s.typeParameters ++ s.type

theorem symbol_isReadFrom (s : CallableShape g) (source : String) (path : List String)
    (doc : Option String) : (s.symbol source path doc).IsReadFrom g s.front s.name where
  identifier := s.name_identifier
  name_eq := rfl
  span_eq := rfl
  line_eq := by
    have hhead : (s.front ++ [s.name]).head? = s.tokens.head? := by
      rw [tokens, call, front]
      cases s.leading ++ s.typeParameters ++ s.type <;> rfl
    rw [hhead, List.head?_eq_some_head s.tokens_ne_nil]
    rfl
  modifiers := by
    rw [front, List.append_assoc]
    exact s.leading_reads.areModifiers _

end CallableShape

namespace TypeHeader

/-- In front of the name of a type stand a leading part and the keyword. -/
theorem ofRun?_sound {g : Grammar} {run : List Token} {h : TypeHeader}
    (hh : ofRun? g run = some h) : ∃ leading words between,
      run = leading ++ between ++ h.name :: h.rest ∧ Leading.Reads g leading words ∧
      h.modifiers = words.eraseDups := by
  obtain ⟨leading, rest, words, hrun, hreads, hleading⟩ := Leading.ofRun_sound g run
  simp only [ofRun?, hleading] at hh
  rw [hrun, List.drop_left] at hh
  split at hh
  · next keyword name after hafter =>
    split at hh
    · cases hh
      -- a sign may stand in front of the keyword
      have hrest : ∃ sign, rest = sign ++ keyword :: name :: after := by
        split at hafter
        · cases rest with
          | nil => cases hafter
          | cons sign rest => exact ⟨[sign], congrArg (sign :: ·) hafter⟩
        · exact ⟨[], hafter⟩
      obtain ⟨sign, rfl⟩ := hrest
      exact ⟨leading, words, sign ++ [keyword], by rw [hrun]; simp, hreads, rfl⟩
    · cases hh
  · cases hh

end TypeHeader

namespace Candidate

variable {g : Grammar} {source : String} {tracker : ScopeTracker} {c : Candidate}
  {run : List Token} {x : Symbol} {d : Decision}

theorem typeDecision?_isReadFrom (h : c.typeDecision? g source tracker run = some d)
    (hx : d.symbol? = some x) :
    ∃ front n rest, run = front ++ n :: rest ∧ x.IsReadFrom g front n := by
  obtain ⟨header, hh, rfl⟩ := Option.map_eq_some_iff.mp h
  obtain ⟨leading, words, between, hrun, hreads, hmodifiers⟩ := TypeHeader.ofRun?_sound hh
  simp only [Decision.symbol?] at hx
  split at hx
  · cases hx
    refine ⟨leading ++ between, header.name, header.rest, hrun, {
      identifier := TypeHeader.name_isIdentifier hh
      name_eq := rfl
      span_eq := rfl
      line_eq := ?_
      modifiers := hmodifiers ▸ hreads.areModifiers between }⟩
    rw [hrun]
    cases leading ++ between <;> rfl
  · cases hx

/-- What a brace declares to be a type is read from its header. -/
theorem atBrace_type (hx : (c.atBrace g source tracker).symbol? = some x) (hk : x.kind = .type) :
    ∃ front n rest, c.tokens = front ++ n :: rest ∧ x.IsReadFrom g front n := by
  obtain ⟨-, -, h | h⟩ := atBrace_symbol?_cases hx
  · exact typeDecision?_isReadFrom h hx
  · -- a callable is no type
    obtain ⟨s, -, -, -, rfl, -⟩ := callableDecision_sound h
    rw [CallableShape.symbol] at hk
    split at hk <;> cases hk

end Candidate

namespace Scan

variable {g : Grammar} {source : String} {s : Scan} {t : Token} {x : Symbol}

/-- What is reported is read from a candidate of not too many tokens that stands in no parentheses:
a type from its header, anything else from a shape behind which no parenthesis is open. -/
theorem candidate_of_symbol? (h : s.symbol? g source t = some x) :
    s.recognizer.candidate.overflowed = false ∧ s.recognizer.candidate.parenDepth = 0 ∧
      ((x.kind = .type ∧ ∃ front n rest, s.recognizer.candidate.tokens = front ++ n :: rest ∧
          x.IsReadFrom g front n) ∨
        ∃ (shape : CallableShape g) (tail : List Token) (path : List String) (doc : Option String),
          s.recognizer.candidate.tokens = shape.tokens ++ tail ∧
          x = shape.symbol source path doc ∧
          (openParens s.recognizer.candidate.tokens = 0 → openParens shape.tokens = 0)) := by
  obtain ⟨d, hd, hx⟩ := Option.bind_eq_some_iff.mp h
  rcases decision?_cases hd with ⟨-, rfl⟩ | ⟨-, hparen, hd⟩
  · obtain ⟨hflow, hdepth, -⟩ := Candidate.atBrace_symbol?_cases hx
    refine ⟨hflow, hdepth, ?_⟩
    by_cases hk : x.kind = .type
    · exact .inl ⟨hk, Candidate.atBrace_type hx hk⟩
    · obtain ⟨shape, tail, htokens, -, hsymbol, hopen⟩ := Candidate.atBrace_sound hx hk
      exact .inr ⟨shape, tail, _, _, htokens, hsymbol, hopen⟩
  · obtain ⟨-, hflow, -⟩ := Candidate.atSemicolon?_cases hd
    obtain ⟨-, shape, tail, ending, _, htokens, -, hsymbol, -, hopen⟩ :=
      Candidate.atSemicolon?_sound hd hx
    have hdepth : s.recognizer.candidate.parenDepth = 0 := by
      simpa [Recognizer.inParenGroup] using hparen
    exact ⟨hflow, hdepth, .inr ⟨shape, tail ++ ending, _, _, htokens, hsymbol, hopen⟩⟩

end Scan

/-! ## Names -/

/-- The word lists of a profile, and its two single keywords. -/
def Profile.wordLists (p : Profile) : List (List String) :=
  [p.keywords, p.modifiers, p.controlKeywords, p.typeDeclarationKeywords, p.typeKeywords,
    p.trailingClauseKeywords, p.constructorInitializers, p.defaultValueKeyword.toList,
    p.anonymousClassKeyword.toList]

theorem Grammar.not_mem_wordLists {p : Profile} {word : String}
    (h : (ofProfile p).isKeyword word = false) : ∀ words ∈ p.wordLists, word ∉ words := by
  intro words hwords hword
  rw [isKeyword, List.contains_eq_mem, decide_eq_false_iff_not] at h
  refine h ?_
  simp only [Profile.wordLists, List.mem_cons, List.not_mem_nil, or_false] at hwords
  simp only [ofProfile, List.mem_append]
  rcases hwords with rfl | rfl | rfl | rfl | rfl | rfl | rfl | rfl | rfl <;> simp [hword]

/-- An identifier is not reserved. -/
theorem Lexeme.atHead_identifier {g : Grammar} {cs : List Char}
    (h : (atHead g cs).kind = .identifier) :
    g.isKeyword (String.ofList (cs.take (atHead g cs).size)) = false := by
  cases cs with
  | nil => cases h
  | cons c rest =>
      revert h
      refine atHead_cases (g := g)
        (motive := fun x => x.kind = .identifier →
          g.isKeyword (String.ofList ((c :: rest).take x.size)) = false) c rest
        ?newline ?lineEnd ?line ?block ?blanks ?verbatims ?strings ?chars ?words ?numbers ?other
      case newline | lineEnd | other => exact TokenKind.noConfusion
      case line => exact fun _ _ _ _ _ => TokenKind.noConfusion
      case block => simp
      case blanks => exact fun _ _ _ => TokenKind.noConfusion
      case verbatims => simp
      case strings => simp
      case chars => simp
      case numbers => exact fun _ => TokenKind.noConfusion
      case words =>
        intro _ hkind
        simp only [word] at hkind ⊢
        rw [Text.take_length_takeWhile]
        split at hkind
        · cases hkind
        · next hword => exact Bool.eq_false_iff.mpr hword

theorem isKeyword_of_identifier {g : Grammar} {source : List Char} {n : Token}
    (hn : n ∈ tokensOf g source) (h : n.isIdentifier = true) : g.isKeyword n.text = false := by
  obtain ⟨l, rfl⟩ := Lexer.exists_headToken hn
  exact Lexeme.atHead_identifier (beq_iff_eq.mp h)

/-! ## Parameters -/

/-- The text is the part of the source between the two offsets. -/
def Text.IsSlice (source : List Char) (start stop : Nat) (text : String) : Prop :=
  ∃ before part after, source = before ++ part ++ after ∧ start = byteSize before ∧
    stop = byteSize (before ++ part) ∧ text = String.ofList part

theorem Text.isSlice_slice {source : List Char} {start stop : Nat}
    (hstart : IsBoundary source start) (hstop : IsBoundary source stop) (hle : start ≤ stop) :
    IsSlice source start stop (slice start stop (String.ofList source)) := by
  obtain ⟨before, after, hs, rfl⟩ := hstart
  obtain ⟨before', after', hs', rfl⟩ := hstop
  rcases Nat.eq_or_lt_of_le hle with heq | hlt
  · refine ⟨before, [], after, by rw [hs, List.append_nil], rfl, by rw [List.append_nil, heq], ?_⟩
    exact slice_of_le (Nat.le_of_eq heq.symm) _
  · obtain ⟨part, rfl⟩ := exists_part_of_lt hs hs' hlt
    refine ⟨before, part, after', hs', rfl, rfl, ?_⟩
    rw [byteSize_append, hs']
    exact slice_part before part after'

/-- Between two code tokens the slice is the part of the source between them. -/
theorem isSlice_of_codeTokens {g : Grammar} {source : List Char} {o c : Token}
    (h : [o, c] <+ codeTokens (tokensOf g source)) :
    Text.IsSlice source o.stop c.start (Text.slice o.stop c.start (String.ofList source)) := by
  have hpart : ∀ t ∈ [o, c], t.IsPart source := fun t ht =>
    tokensOf_isPart g source t (List.mem_of_mem_filter (h.subset ht))
  have horder : InOrder [o, c] := (codeTokens_inOrder g source).sublist h
  refine Text.isSlice_slice (hpart o (by simp)).2 (hpart c (by simp)).1 ?_
  exact ((List.pairwise_cons.mp horder).1 c (by simp)).2

/-- The tokens behind a name begin with type arguments, or with nothing, and a group of parentheses;
`text` is the source text in that group. Blocks are left out of both. They cannot stand between the
name and the group unless there is a `)` among the type arguments. -/
structure IsParameterList (source : List Char) (text : String) (after between : List Token)
    (opening : Token) (inner : List Token) (closing : Token) (rest : List Token) : Prop where
  after_eq : after = between ++ opening :: inner ++ closing :: rest
  between_balanced : Balanced between
  between_angles : IsAngles (outsideBlocks between)
  between_whole : (∀ t ∈ outsideBlocks between, t.isPunct ')' = false) →
    outsideBlocks between = between
  opening_paren : opening.isPunct '(' = true
  closing_paren : closing.isPunct ')' = true
  inner_balanced : Balanced inner
  inner_parens : parens.Balanced (outsideBlocks inner)
  text_slice : Text.IsSlice source opening.stop closing.start text

/-- An unbroken part from which a shape is left has the name and the parameters of that shape. Type
arguments without a `)` stand there as they are. -/
theorem Unbroken.exists_parameters {g : Grammar} {seg tail : List Token} (h : Unbroken seg)
    (s : CallableShape g) (hrun : outsideBlocks seg = s.tokens ++ tail)
    (hopen : openParens s.tokens = 0) :
    ∃ decl between inner rest,
      seg = decl ++ s.name :: (between ++ s.opening :: inner ++ s.closing :: rest) ∧
      Unbroken decl ∧ outsideBlocks decl = s.front ∧ Balanced between ∧
      outsideBlocks between = s.typeArguments ∧
      ((∀ t ∈ s.typeArguments, t.isPunct ')' = false) → s.typeArguments = between) ∧
      Balanced inner ∧ outsideBlocks inner = s.params := by
  -- the parts are split off from the end: at the closing parenthesis, at the opening one
  have hclosing : outsideBlocks seg =
      (s.front ++ s.name :: s.typeArguments ++ s.opening :: s.params) ++ s.closing :: tail := by
    rw [hrun]
    simp [CallableShape.tokens, CallableShape.call, CallableShape.group, CallableShape.front]
  obtain ⟨seg, rest, rfl, hseg, hfirst, -, -⟩ := h.exists_split hclosing
  obtain ⟨seg, inner, rfl, hseg, hfirst, hinner, hparams⟩ := hseg.exists_split hfirst
  -- in front of the opening parenthesis none is open
  have hzero : openParens (outsideBlocks seg) = 0 := by
    have htokens : s.tokens = (s.front ++ s.name :: s.typeArguments) ++ s.group := by
      simp [CallableShape.tokens, CallableShape.call, CallableShape.front]
    rwa [hfirst, ← Candidate.openParens_append_balanced _ (s.group_isGroup.balanced (by decide)),
      ← htokens]
  have hname := Token.isWord_of_isIdentifier s.name_identifier
  by_cases hno : ∀ t ∈ s.typeArguments, t.isPunct ')' = false
  · -- so nothing is left out from the name on
    have hnot : ∀ t ∈ s.name :: s.typeArguments, t.isPunct ')' = false :=
      List.forall_mem_cons.mpr ⟨Token.not_isPunct_of_isWord hname _, hno⟩
    obtain ⟨decl, rfl, hdecl, hfront, hbalanced, hwhole⟩ := hseg.exists_append hfirst hzero hnot
    have hplain : s.name.isBrace = false := by
      simp [Token.isBrace, Token.not_isPunct_of_isWord hname]
    rw [outsideBlocks_plain hplain, List.cons.injEq] at hwhole
    exact ⟨decl, s.typeArguments, inner, rest, by simp, hdecl, hfront,
      hbalanced.of_cons hplain, hwhole.2, fun _ => rfl, hinner, hparams⟩
  · obtain ⟨decl, between, rfl, hdecl, hfront, hbetween, hangles⟩ := hseg.exists_split hfirst
    exact ⟨decl, between, inner, rest, by simp, hdecl, hfront, hbetween, hangles,
      fun h => absurd h hno, hinner, hparams⟩

/-- Such a part of the source has the parameters of the shape in it, as a part of the text. -/
theorem Unbroken.exists_parameterList {g : Grammar} {source : List Char}
    {start seg behind tail : List Token} (h : Unbroken seg)
    (hts : codeTokens (tokensOf g source) = start ++ seg ++ behind) (s : CallableShape g)
    (hrun : outsideBlocks seg = s.tokens ++ tail) (hopen : openParens s.tokens = 0) :
    ∃ decl after, seg ++ behind = decl ++ s.name :: after ∧ Unbroken decl ∧
      outsideBlocks decl = s.front ∧ ∃ between opening inner closing rest,
        IsParameterList source (Text.slice s.opening.stop s.closing.start (String.ofList source))
          after between opening inner closing rest := by
  obtain ⟨decl, between, inner, rest, rfl, hdecl, hfront, hbetween, hangles, hwhole, hinner,
    hparams⟩ := h.exists_parameters s hrun hopen
  have hslice : Text.IsSlice source s.opening.stop s.closing.start
      (Text.slice s.opening.stop s.closing.start (String.ofList source)) := by
    have hsplit : codeTokens (tokensOf g source) = (start ++ decl ++ s.name :: between) ++
        (s.opening :: (inner ++ s.closing :: (rest ++ behind))) := by
      rw [hts]
      simp
    refine isSlice_of_codeTokens (g := g) ?_
    rw [hsplit]
    refine List.Sublist.trans ?_ (List.sublist_append_right _ _)
    exact ((List.nil_sublist inner).append ((List.nil_sublist _).cons_cons _)).cons_cons _
  refine ⟨decl, between ++ s.opening :: inner ++ s.closing :: (rest ++ behind), by simp, hdecl,
    hfront, between, s.opening, inner, s.closing, rest ++ behind, ?_⟩
  exact {
    after_eq := rfl
    between_balanced := hbetween
    between_angles := hangles ▸ s.typeArguments_angles
    between_whole := fun h => hangles.trans (hwhole (hangles ▸ h))
    opening_paren := s.opening_paren
    closing_paren := s.closing_paren
    inner_balanced := hinner
    inner_parens := hparams ▸ s.params_balanced
    text_slice := hslice }

/-! ## Symbols -/

/-- Up to doc comments the symbols of a scan are those of a scan of the code tokens. -/
theorem scan_symbols_undocumented (g : Grammar) (source : List Char) :
    (scan g source).symbols.map Symbol.undocumented =
      Scan.reported g (String.ofList source) (codeTokens (tokensOf g source)) {} := by
  have hrun : ∀ ts, (Scan.run g (String.ofList source) ts {}).table.toList =
      Scan.reported g (String.ofList source) ts {} := fun ts => by
    have hnil : ({} : Scan).table.toList = [] := rfl
    rw [Scan.run_symbols, hnil, List.nil_append]
  obtain ⟨line, hline⟩ := exists_undocumented_eq g source
  have htable := congrArg (·.table.toList) hline
  rw [scan_symbols, ← hrun, ← hrun, ← htable]
  exact (Array.toList_map ..).symm

/-- The symbol is faithful to the source: `start` are the code tokens before its declaration, `decl`
those of the declaration in front of the name, `n` is the name and `after` is what follows. -/
structure Symbol.Faithful (p : Profile) (source : List Char) (x : Symbol) (start decl : List Token)
    (n : Token) (after : List Token) : Prop where
  tokens_eq : codeTokens (tokensOf (.ofProfile p) source) = start ++ decl ++ n :: after
  start_boundary : EndsAtBoundary start
  decl_unbroken : Unbroken decl
  line_eq : (decl ++ [n]).head?.map Token.line = some x.startLine
  identifier : n.isIdentifier = true
  name_eq : x.name = n.text
  span_eq : x.span = .ofToken n
  name_free : ∀ words ∈ p.wordLists, x.name ∉ words
  modifiers_nodup : x.modifiers.Nodup
  modifiers_mem : ∀ word ∈ x.modifiers, word ∈ p.modifiers
  modifiers_words : x.modifiers <+ wordsOf decl
  parameters : x.kind.isCallable = true → ∃ between opening inner closing rest,
    IsParameterList source x.parameterText after between opening inner closing rest

/-- What a symbol is read from stands in the source, if the tokens before it do. -/
theorem Symbol.IsReadFrom.faithful {p : Profile} {source : List Char} {x : Symbol}
    {start decl front after : List Token} {n : Token}
    (h : x.IsReadFrom (.ofProfile p) front n) (hdecl : Unbroken decl)
    (hfront : outsideBlocks decl = front) (hstart : EndsAtBoundary start)
    (htokens : codeTokens (tokensOf (.ofProfile p) source) = start ++ decl ++ n :: after)
    (hparameters : x.kind.isCallable = true → ∃ between opening inner closing rest,
      IsParameterList source x.parameterText after between opening inner closing rest) :
    x.Faithful p source start decl n after where
  tokens_eq := htokens
  start_boundary := hstart
  decl_unbroken := hdecl
  line_eq := by
    rw [List.head?_append, ← hdecl.head?_outsideBlocks, hfront, ← List.head?_append]
    exact h.line_eq
  identifier := h.identifier
  name_eq := h.name_eq
  span_eq := h.span_eq
  name_free := by
    have hn : n ∈ codeTokens (tokensOf (.ofProfile p) source) := by simp [htokens]
    rw [h.name_eq]
    exact Grammar.not_mem_wordLists
      (isKeyword_of_identifier (List.mem_of_mem_filter hn) h.identifier)
  modifiers_nodup := h.modifiers.nodup
  modifiers_mem := fun word hword => List.contains_iff_mem.mp (h.modifiers.mem word hword)
  modifiers_words := by
    have horder : InOrder decl := by
      have := codeTokens_inOrder (.ofProfile p) source
      rw [htokens, List.append_assoc] at this
      exact this.sublist ((List.sublist_append_left _ _).trans (List.sublist_append_right _ _))
    have hsub : front <+ decl := hfront ▸ outsideBlocks_sublist decl
    exact h.modifiers.words.trans (wordsOf_sublist hsub horder)
  parameters := hparameters

/-- **Every symbol is faithful to the source**, in every valid profile. -/
theorem scan_symbols_faithful {p : Profile} {g : Grammar} (hg : Grammar.compile p = .ok g)
    {source : List Char} {x : Symbol} (hx : x ∈ (scan g source).symbols) :
    ∃ start decl n after, x.Faithful p source start decl n after := by
  obtain rfl : g = .ofProfile p := by
    unfold Grammar.compile at hg
    split at hg
    · cases hg
    · cases hg
      rfl
  -- the symbol is decided at a code token, from a candidate that stands before that
  have hmem := List.mem_map_of_mem (f := Symbol.undocumented) hx
  rw [scan_symbols_undocumented] at hmem
  obtain ⟨before, t, behind, hts, hsymbol⟩ := Scan.exists_of_mem_reported hmem
  have hcode : ∀ u ∈ before, u.isFiller = false ∧ u.kind ≠ .endOfInput := fun u hu => by
    have hu : u ∈ codeTokens (tokensOf (.ofProfile p) source) := by simp [hts, hu]
    simpa [codeTokens] using (List.mem_filter.mp hu).2
  obtain ⟨start, seg, doc, rfl, hstart, hseg, hc⟩ :=
    Scan.run_candidate_standsIn (.ofProfile p) (String.ofList source) before hcode
  obtain ⟨hflow, hdepth, hread⟩ := Scan.candidate_of_symbol? hsymbol
  rw [hc] at hflow hdepth hread
  rw [Candidate.ofRun_parenDepth] at hdepth
  rw [Candidate.ofRun_tokens hflow] at hread
  rcases hread with ⟨hk, front, n, rest, hrun, hread⟩ |
    ⟨shape, tail, path, doc, hrun, hshape, hopen⟩
  · -- a type, of which no parameters are asked
    obtain ⟨decl, after, rfl, hdecl, hfront, -, -⟩ := hseg.exists_split hrun
    have hcallable : x.kind.isCallable = false := congrArg SymbolKind.isCallable hk
    refine ⟨start, decl, n, after ++ t :: behind, hread.of_undocumented.faithful hdecl hfront hstart
      (by rw [hts]; simp) fun h => ?_⟩
    rw [hcallable] at h
    cases h
  · obtain ⟨decl, after, hafter, hdecl, hfront, hparameters⟩ :=
      hseg.exists_parameterList hts shape hrun (hopen hdepth)
    have hread := shape.symbol_isReadFrom (String.ofList source) path doc
    have htext := congrArg Symbol.parameterText hshape
    rw [← hshape] at hread
    refine ⟨start, decl, shape.name, after, hread.of_undocumented.faithful hdecl hfront hstart
      (by rw [hts, List.append_assoc, hafter, List.append_assoc]) fun _ => ?_⟩
    exact htext ▸ hparameters

/-- A method with two modifiers in a class. -/
theorem scan_symbols_faithful_of_class :
    let source := "class A \x7b public static int f(int x) \x7b \x7d \x7d".toList
    let x : Symbol := {
      name := "f"
      kind := .method
      modifiers := ["public", "static"]
      parameterText := "int x"
      startLine := 1
      span := ⟨28, 29, 1, 29⟩
      path := ["A"] }
    Grammar.compile .java = .ok (.ofProfile .java) ∧ x ∈ (scan (.ofProfile .java) source).symbols ∧
      ∃ start decl n after, x.Faithful .java source start decl n after := by
  intro source x
  have hg : Grammar.compile .java = .ok (.ofProfile .java) := by
    have hvalid : Profile.java.fault? = none := by decide +kernel
    rw [Grammar.compile, hvalid]
  have hx : x ∈ (scan (.ofProfile .java) source).symbols := by decide +kernel
  exact ⟨hg, hx, scan_symbols_faithful hg hx⟩

/-- **A block may stand between a name and its parameters**: with a parenthesis open in an attribute
list and closed among the type arguments, a method is reported behind the name of which neither a
parenthesis stands nor type arguments and a parenthesis. -/
theorem parameters_behind_block :
    let g := Grammar.ofProfile .csharp
    let source := "class A \x7b [(] int f \x7b\x7d <)> (x) \x7b \x7d \x7d".toList
    Grammar.compile .csharp = .ok g ∧ ∃ x ∈ (scan g source).symbols, x.kind = .method ∧
      ∀ before n after, codeTokens (tokensOf g source) = before ++ n :: after →
        x.span = .ofToken n → ∀ between o rest, after = between ++ o :: rest → IsAngles between →
          o.isPunct '(' = false := by
  intro g source
  have hg : Grammar.compile .csharp = .ok g := by
    have hvalid : Profile.csharp.fault? = none := by decide +kernel
    rw [Grammar.compile, hvalid]
  let x : Symbol := {
    name := "f"
    kind := .method
    modifiers := []
    parameterText := "x"
    startLine := 1
    span := ⟨18, 19, 1, 19⟩
    path := ["A"] }
  have hx : x ∈ (scan g source).symbols := by
    rw [show g = _ from ofProfile_csharp]
    decide +kernel
  -- the token behind the one at byte 18 opens the block
  have hnext : ∀ part ∈ (codeTokens (tokensOf g source)).tails,
      part.head?.any (·.start == 18) = true → part.tail.head?.any (·.isPunct '{') = true := by
    rw [show g = _ from ofProfile_csharp]
    decide +kernel
  refine ⟨hg, x, hx, rfl, fun before n after hts hspan between o rest hafter hangles => ?_⟩
  have hstart : 18 = n.start := congrArg Span.startByte hspan
  have hhead : after.head?.any (·.isPunct '{') = true :=
    hnext (n :: after) ((List.mem_tails _ _).mpr ⟨before, hts.symm⟩) (by simp [hstart])
  rw [hafter] at hhead
  rcases hangles with rfl | ⟨a, inner, c, rfl, ha, -⟩
  · exact Token.not_isPunct_of_ne hhead (by decide)
  · have hopening : a.isPunct '{' = true := hhead
    rw [Token.not_isPunct_of_ne ha (by decide)] at hopening
    cases hopening

end DeclTags
