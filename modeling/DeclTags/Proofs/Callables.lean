import DeclTags.Proofs.Leadings
import DeclTags.Proofs.Tails
import DeclTags.Candidate.Header

set_option autoImplicit false

/-! # The shape of a callable

A method or constructor is written as `leading <T> type name <T> ( parameters )`, perhaps with a
chain and a trailing clause behind it. `CallableShape` holds the parts of such a run, each of them
well formed.

Reading a header and writing a shape fit together: every header that is read comes from a shape
(`CallableHeader.ofRun?_sound`), and the run of a shape is read as the header that the shape
describes (`CallableShape.PartsApart.ofRun?`). For the latter the parts have to be told apart, which
needs that the type does not begin like something else (`IsType`).
-/

namespace DeclTags

open DeclTags.Bracket (parens angles)

/-! ## Names with arguments -/

/-- A group in angle brackets, or nothing. -/
def IsAngles (run : List Token) : Prop := run = [] ∨ angles.IsGroup run

theorem IsAngles.nil : IsAngles [] := .inl rfl

namespace CallShape

variable {run before typeArguments : List Token} {name : Token}

theorem withoutTypeArguments?_sound {back rest : List Token}
    (h : withoutTypeArguments? back = some rest) :
    ∃ typeArguments, IsAngles typeArguments ∧ back = typeArguments.reverse ++ rest := by
  unfold withoutTypeArguments? at h
  split at h
  · obtain ⟨⟨group, rest⟩, hsplit, rfl⟩ := Option.map_eq_some_iff.mp h
    obtain ⟨hgroup, rfl⟩ := (Bracket.splitGroup?_eq_some_iff (by decide)).mp hsplit
    refine ⟨group.reverse, .inr (Bracket.isGroup_reverse_iff.mp ?_), by rw [List.reverse_reverse]⟩
    rwa [List.reverse_reverse]
  · cases h
    exact ⟨[], .inl rfl, rfl⟩

theorem withoutTypeArguments?_complete (ht : IsAngles typeArguments)
    (hname : name.isIdentifier = true) :
    withoutTypeArguments? (before ++ name :: typeArguments).reverse =
      some (name :: before.reverse) := by
  rcases ht with rfl | hgroup
  · have := Token.not_isPunct_of_isIdentifier hname '>'
    simp [withoutTypeArguments?, this]
  · have hsplit : angles.flip.splitGroup? (before ++ name :: typeArguments).reverse =
        some (typeArguments.reverse, (before ++ [name]).reverse) :=
      (Bracket.splitGroup?_reverse_eq_some_iff (by decide)).mpr ⟨hgroup, by simp⟩
    have hhead : (before ++ name :: typeArguments).reverse.head?.any (·.isPunct '>') = true := by
      obtain ⟨o, inner, c, rfl, -, hc, -⟩ := hgroup
      have : before ++ name :: (o :: inner ++ [c]) = (before ++ name :: o :: inner) ++ [c] := by
        simp
      rw [this, List.reverse_append]
      exact hc
    rw [withoutTypeArguments?, if_pos hhead, hsplit]
    simp

/-- A run ends with a name and arguments exactly if it is written so. -/
theorem ofBack?_eq_some_iff {c : CallShape} :
    ofBack? run.reverse = some c ↔
      ∃ typeArguments, IsAngles typeArguments ∧ c.name.isIdentifier = true ∧
        parens.IsGroup c.group ∧ run = c.before.reverse ++ c.name :: typeArguments ++ c.group := by
  simp only [ofBack?, Option.bind_eq_bind, Option.bind_eq_some_iff, Prod.exists]
  constructor
  · rintro ⟨group, back, hsplit, rest, hrest, h⟩
    obtain ⟨hgroup, hrun⟩ := (Bracket.splitGroup?_eq_some_iff (by decide)).mp hsplit
    obtain ⟨typeArguments, ht, rfl⟩ := withoutTypeArguments?_sound hrest
    split at h
    · next name before =>
      split at h
      · next hname =>
        cases h
        refine ⟨typeArguments, ht, hname,
          Bracket.isGroup_reverse_iff.mp (by rwa [List.reverse_reverse]), ?_⟩
        rw [← List.reverse_inj, hrun]
        simp
      · cases h
    · cases h
  · rintro ⟨typeArguments, ht, hname, hgroup, rfl⟩
    refine ⟨c.group.reverse, _, (Bracket.splitGroup?_reverse_eq_some_iff (by decide)).mpr
      ⟨hgroup, rfl⟩, _, withoutTypeArguments?_complete ht hname, ?_⟩
    simp [hname]

end CallShape

/-! ## Constructions -/

/-- The run ends with the construction of an object: the keyword, a dotted name, type arguments if
there are any, and arguments. -/
def EndsWithConstruction (g : Grammar) (run : List Token) : Prop :=
  ∃ before keyword qualifiers name typeArguments group,
    run = before ++ keyword :: (qualifiers ++ name :: typeArguments ++ group) ∧
      keyword.isKeyword = true ∧ g.isAnonymousClass keyword.text = true ∧
      LeadingPiece.Qualifiers qualifiers.reverse ∧ name.isIdentifier = true ∧
      IsAngles typeArguments ∧ parens.IsGroup group

theorem withoutQualifiers_sound (back : List Token) :
    ∃ qualifiers, LeadingPiece.Qualifiers qualifiers ∧
      back = qualifiers ++ withoutQualifiers back := by
  fun_induction withoutQualifiers back with
  | case1 point name back h ih =>
      rw [Bool.and_eq_true] at h
      obtain ⟨qualifiers, hq, heq⟩ := ih
      exact ⟨point :: name :: qualifiers, .cons h.1 h.2 hq, by rw [List.cons_append,
        List.cons_append, ← heq]⟩
  | case2 point name back => exact ⟨[], .nil, rfl⟩
  | case3 back => exact ⟨[], .nil, rfl⟩

theorem withoutQualifiers_complete {qualifiers back : List Token} {t : Token}
    (h : LeadingPiece.Qualifiers qualifiers) (ht : t.isPunct '.' = false) :
    withoutQualifiers (qualifiers ++ t :: back) = t :: back := by
  induction h with
  | nil => cases back <;> simp [withoutQualifiers, ht]
  | cons hpoint hname _ ih => simp [withoutQualifiers, hpoint, hname, ih]

theorem endsWithConstruction_reverse_iff {g : Grammar} {run : List Token} :
    endsWithConstruction g run.reverse = true ↔ EndsWithConstruction g run := by
  rw [endsWithConstruction, Option.any_eq_true]
  simp only [CallShape.ofBack?_eq_some_iff]
  constructor
  · rintro ⟨c, ⟨typeArguments, ht, hname, hgroup, rfl⟩, h⟩
    obtain ⟨qualifiers, hq, hback⟩ := withoutQualifiers_sound c.before
    cases hrest : withoutQualifiers c.before with
    | nil =>
        rw [hrest] at h
        cases h
    | cons keyword before =>
        rw [hrest, List.head?_cons, Option.any_some, Bool.and_eq_true] at h
        rw [hrest] at hback
        refine ⟨before.reverse, keyword, qualifiers.reverse, c.name, typeArguments, c.group, ?_,
          h.1, h.2, by rwa [List.reverse_reverse], hname, ht, hgroup⟩
        rw [hback]
        simp
  · rintro ⟨before, keyword, qualifiers, name, typeArguments, group, rfl, hkeyword, hword, hq,
      hname, ht, hgroup⟩
    have hpoint := Token.not_isPunct_of_isWord (Token.isWord_of_isKeyword hkeyword) '.'
    refine ⟨⟨qualifiers.reverse ++ keyword :: before.reverse, name, group⟩,
      ⟨typeArguments, ht, hname, hgroup, by simp⟩, ?_⟩
    rw [withoutQualifiers_complete hq hpoint]
    simp [hkeyword, hword]

/-! ## Shapes -/

/-- A run of the form `leading <T> type name <T> ( parameters )`, by its parts. -/
structure CallableShape (g : Grammar) where
  leading : List Token
  /-- The words of the modifiers, as they are written. -/
  words : List String
  typeParameters : List Token
  type : List Token
  name : Token
  typeArguments : List Token
  opening : Token
  params : List Token
  closing : Token
  leading_reads : Leading.Reads g leading words
  typeParameters_angles : IsAngles typeParameters
  name_identifier : name.isIdentifier = true
  typeArguments_angles : IsAngles typeArguments
  opening_paren : opening.isPunct '(' = true
  closing_paren : closing.isPunct ')' = true
  params_balanced : parens.Balanced params

namespace CallableShape

variable {g : Grammar}

/-- The parameters with their parentheses. -/
def group (s : CallableShape g) : List Token := s.opening :: s.params ++ [s.closing]

/-- Everything behind the type. -/
def call (s : CallableShape g) : List Token := s.name :: s.typeArguments ++ s.group

/-- All tokens, in order. -/
def tokens (s : CallableShape g) : List Token :=
  s.leading ++ s.typeParameters ++ s.type ++ s.call

/-- The header that the tokens describe. -/
def header (s : CallableShape g) (chained : Bool) : CallableHeader :=
  ⟨s.words.eraseDups, s.type, s.name, s.group, chained⟩

theorem group_isGroup (s : CallableShape g) : parens.IsGroup s.group :=
  ⟨_, _, _, rfl, s.opening_paren, s.closing_paren, s.params_balanced⟩

end CallableShape

/-! ## From headers to shapes -/

namespace CallableHeader

variable {g : Grammar} {withBody : Bool} {run : List Token}

theorem withoutTypeParameters?_sound {rest : List Token}
    (h : withoutTypeParameters? run = some rest) :
    ∃ typeParameters, IsAngles typeParameters ∧ run = typeParameters ++ rest := by
  unfold withoutTypeParameters? at h
  split at h
  · obtain ⟨⟨group, rest⟩, hsplit, rfl⟩ := Option.map_eq_some_iff.mp h
    obtain ⟨hgroup, rfl⟩ := (Bracket.splitGroup?_eq_some_iff (by decide)).mp hsplit
    exact ⟨group, .inr hgroup, rfl⟩
  · cases h
    exact ⟨[], .inl rfl, rfl⟩

theorem withoutTypeParameters?_complete {typeParameters rest : List Token}
    (h : IsAngles typeParameters) (hrest : rest.head?.any (·.isPunct '<') = false) :
    withoutTypeParameters? (typeParameters ++ rest) = some rest := by
  rcases h with rfl | hgroup
  · simp [withoutTypeParameters?, hrest]
  · have hsplit : angles.splitGroup? (typeParameters ++ rest) = some (typeParameters, rest) :=
      (Bracket.splitGroup?_eq_some_iff (by decide)).mpr ⟨hgroup, rfl⟩
    have hhead : (typeParameters ++ rest).head?.any (·.isPunct '<') = true := hgroup.head?_any rest
    rw [withoutTypeParameters?, if_pos hhead, hsplit]
    rfl

/-- What may be cut off behind the run of a shape: a chain, if there is a body, and a clause. -/
structure Tail (g : Grammar) (withBody : Bool) (chain clause : List Token) : Prop where
  chain_body : chain = [] ∨ withBody = true ∧ IsChain g chain
  clause_trailing : clause = [] ∨ IsTrailingClause g clause

/-- What is left of a run without its chain, if a chain is looked for and found. -/
theorem chain_sound (g : Grammar) (withBody : Bool) (run : List Token) :
    ∃ main chain, run = main ++ chain ∧ (chain = [] ∨ withBody = true ∧ IsChain g chain) ∧
      (if withBody then beforeInitializer? g run.reverse else none).getD run.reverse =
        main.reverse ∧
      (if withBody then beforeInitializer? g run.reverse else none).isSome = !chain.isEmpty := by
  cases hc : (if withBody then beforeInitializer? g run.reverse else none) with
  | none => exact ⟨run, [], by simp, .inl rfl, rfl, rfl⟩
  | some before =>
      split at hc
      · next hbody =>
        rw [← before.reverse_reverse] at hc
        obtain ⟨chain, hchain, hrun⟩ := beforeInitializer?_eq_some_iff.mp hc
        refine ⟨before.reverse, chain, hrun, .inr ⟨hbody, hchain⟩, ?_, ?_⟩
        · rw [List.reverse_reverse, Option.getD_some]
        · obtain ⟨colon, keyword, arguments, rfl, -⟩ := hchain
          rfl
      · cases hc

/-- A header comes from the shape that the run without its trailing clause begins with. -/
theorem ofRun?_shape {h : CallableHeader} (hh : ofRun? g withBody run = some h) :
    ∃ (s : CallableShape g) (chain : List Token),
      withoutTrailingClause? g run = some (s.tokens ++ chain) ∧
      (chain = [] ∨ withBody = true ∧ IsChain g chain) ∧ h = s.header (!chain.isEmpty) := by
  simp only [ofRun?, Option.bind_eq_bind, Option.bind_eq_some_iff] at hh
  obtain ⟨rest, hrest, shape, hshape, type, htype, hh⟩ := hh
  cases hh
  obtain ⟨main, chain, hmain, hchain, hgetD, hsome⟩ := chain_sound g withBody rest
  rw [hgetD] at hshape
  obtain ⟨typeArguments, ht, hname, ⟨o, params, c, hgroup, ho, hc, hparams⟩, rfl⟩ :=
    CallShape.ofBack?_eq_some_iff.mp hshape
  obtain ⟨leading, before, words, hbefore, hreads, hleading⟩ :=
    Leading.ofRun_sound g shape.before.reverse
  rw [hleading] at htype ⊢
  rw [hbefore, List.drop_left] at htype
  obtain ⟨typeParameters, htp, rfl⟩ := withoutTypeParameters?_sound htype
  refine ⟨⟨leading, words, typeParameters, type, shape.name, typeArguments, o, params, c, hreads,
    htp, hname, ht, ho, hc, hparams⟩, chain, ?_, hchain, ?_⟩
  · rw [hrest, hmain]
    simp [CallableShape.tokens, CallableShape.call, CallableShape.group, hbefore, hgroup]
  · rw [hsome, hgroup]
    rfl

/-- **A header that is read off a run comes from a shape.** -/
theorem ofRun?_sound {h : CallableHeader} (hh : ofRun? g withBody run = some h) :
    ∃ (s : CallableShape g) (chain clause : List Token), run = s.tokens ++ chain ++ clause ∧
      Tail g withBody chain clause ∧ h = s.header (!chain.isEmpty) := by
  obtain ⟨s, chain, hrest, hchain, hheader⟩ := ofRun?_shape hh
  obtain ⟨clause, hrun, hclause⟩ := withoutTrailingClause?_sound hrest
  exact ⟨s, chain, clause, hrun, ⟨hchain, hclause⟩, hheader⟩

end CallableHeader

/-! ## From shapes to headers -/

theorem endsType_iff {g : Grammar} {t : Token} :
    endsType g t = true ↔
      t.isIdentifier = true ∨ (t.isKeyword = true ∧ g.isTypeKeyword t.text = true) ∨
        t.isPunct '>' = true ∨ t.isPunct ']' = true := by
  unfold endsType Token.isIdentifier Token.isKeyword Token.isPunct
  cases hk : t.kind <;> simp

/-- Such tokens as may stand in a type, the last one a name, the keyword of a type, or a closing
bracket. -/
structure IsTypeRun (g : Grammar) (type : List Token) : Prop where
  all : ∀ t ∈ type, isTypeToken g t = true
  last : ∃ t ∈ type.getLast?, t.isIdentifier = true ∨
    (t.isKeyword = true ∧ g.isTypeKeyword t.text = true) ∨
      t.isPunct '>' = true ∨ t.isPunct ']' = true

theorem isTypeRun_iff {g : Grammar} {type : List Token} :
    isTypeRun g type = true ↔ IsTypeRun g type := by
  simp only [isTypeRun, Bool.and_eq_true, List.all_eq_true, Option.any_eq_true, endsType_iff]
  exact ⟨fun h => ⟨h.1, h.2⟩, fun h => ⟨h.all, h.last⟩⟩

theorem IsTypeRun.ne_nil {g : Grammar} {type : List Token} (h : IsTypeRun g type) : type ≠ [] := by
  obtain ⟨last, hlast, -⟩ := h.last
  rintro rfl
  cases hlast

/-- Such tokens, the first one a name or the keyword of a type. -/
structure IsType (g : Grammar) (type : List Token) : Prop extends IsTypeRun g type where
  head : ∃ t rest, type = t :: rest ∧
    (t.isIdentifier = true ∨ t.isKeyword = true ∧ g.isTypeKeyword t.text = true)

/-- A type does not begin with an angle bracket. -/
theorem IsType.not_angle {g : Grammar} {type : List Token} (h : type = [] ∨ IsType g type) :
    type.head?.any (·.isPunct '<') = false := by
  rcases h with rfl | h
  · rfl
  · obtain ⟨t, rest, rfl, ht⟩ := h.head
    refine Token.not_isPunct_of_isWord ?_ _
    exact ht.elim Token.isWord_of_isIdentifier fun h => Token.isWord_of_isKeyword h.1

namespace CallableShape

variable {g : Grammar} {tail : List Token}

theorem isTypeToken_not_isPunct {t : Token} (h : isTypeToken g t = true) {c : Char}
    (hc : c ∉ ['<', '>', ',', '.', '?', '[', ']', '&']) : t.isPunct c = false := by
  rw [Bool.eq_false_iff, ne_eq, Token.isPunct_iff]
  intro hk
  rw [isTypeToken, hk] at h
  exact hc (List.contains_iff_mem.mp h)

/-- A word that is no modifier and has no hyphen behind it stops a leading part. -/
theorem stops_of_word {t : Token} {rest : List Token} (ht : t.isWord = true)
    (hself : (t.isKeyword && g.isModifier t.text) = false)
    (hhyphen : rest.head?.any (·.isPunct '-') = false) : Leading.Stops g (t :: rest) where
  no_piece := LeadingPiece.atHead?_eq_none (Token.not_isPunct_of_isWord ht _) hself fun _ => hhyphen
  no_point := Token.not_isPunct_of_isWord ht _
  no_paren := Token.not_isPunct_of_isWord ht _
  no_list := Token.not_isPunct_of_isWord ht _

/-- An opening angle bracket stops a leading part. -/
theorem stops_of_angle {t : Token} {rest : List Token} (ht : t.isPunct '<' = true) :
    Leading.Stops g (t :: rest) where
  no_piece := by
    refine LeadingPiece.atHead?_eq_none (Token.not_isPunct_of_ne ht (by decide)) ?_ fun hw => ?_
    · rw [Token.not_isKeyword_of_isPunct ht, Bool.false_and]
    · rw [Token.not_isPunct_of_isWord hw] at ht
      cases ht
  no_point := Token.not_isPunct_of_ne ht (by decide)
  no_paren := Token.not_isPunct_of_ne ht (by decide)
  no_list := Token.not_isPunct_of_ne ht (by decide)

/-- Type parameters and a type stop a leading part, and so does what stops one without them. -/
theorem stops_append {typeParameters type rest : List Token}
    (hmodifier : ∀ word, g.isTypeKeyword word = true → g.isModifier word = false)
    (htp : IsAngles typeParameters) (htype : type = [] ∨ IsType g type)
    (hrest : Leading.Stops g rest) (hhyphen : rest.head?.any (·.isPunct '-') = false) :
    Leading.Stops g (typeParameters ++ (type ++ rest)) := by
  rcases htp with rfl | ⟨o, inner, c, rfl, ho, -⟩
  · rcases htype with rfl | htype
    · exact hrest
    · obtain ⟨t, others, rfl, ht⟩ := htype.head
      have hnext : (others ++ rest).head?.any (·.isPunct '-') = false := by
        cases others with
        | nil => exact hhyphen
        | cons u others => exact isTypeToken_not_isPunct (htype.all u (by simp)) (by decide)
      rcases ht with ht | ⟨hk, hword⟩
      · refine stops_of_word (Token.isWord_of_isIdentifier ht) ?_ hnext
        rw [Token.not_isKeyword_of_isIdentifier ht, Bool.false_and]
      · refine stops_of_word (Token.isWord_of_isKeyword hk) ?_ hnext
        rw [hmodifier _ hword, Bool.and_false]
  · exact stops_of_angle ho

/-- No chain ends a run that ends with a shape. -/
theorem no_chain (s : CallableShape g) : beforeInitializer? g s.tokens.reverse = none := by
  by_contra hne
  obtain ⟨before, hsome⟩ := Option.ne_none_iff_exists'.mp hne
  rw [← before.reverse_reverse] at hsome
  obtain ⟨chain, ⟨colon, keyword, arguments, rfl, -, hkeyword, -, hgroup⟩, hrun⟩ :=
    beforeInitializer?_eq_some_iff.mp hsome
  -- the shape's parameters are the chain's arguments, so the keyword is the name or a bracket
  have hsplit : (s.leading ++ s.typeParameters ++ s.type ++ s.name :: s.typeArguments) ++ s.group =
      (before.reverse ++ [colon, keyword]) ++ arguments := by
    rw [show (s.leading ++ s.typeParameters ++ s.type ++ s.name :: s.typeArguments) ++ s.group =
      s.tokens by simp [tokens, call], hrun]
    simp
  obtain ⟨heq, -⟩ := s.group_isGroup.last_unique (by decide) hgroup hsplit
  have hlast := congrArg List.getLast? heq
  rw [show before.reverse ++ [colon, keyword] = (before.reverse ++ [colon]) ++ [keyword] by simp,
    List.getLast?_concat] at hlast
  rcases s.typeArguments_angles with hnil | ⟨o, inner, c, htypes, -, hc, -⟩
  · rw [hnil, List.getLast?_concat, Option.some.injEq] at hlast
    rw [← hlast, Token.not_isKeyword_of_isIdentifier s.name_identifier] at hkeyword
    cases hkeyword
  · rw [htypes, ← List.cons_append, ← List.append_assoc, List.getLast?_concat,
      Option.some.injEq] at hlast
    rw [← hlast, Token.not_isKeyword_of_isPunct hc] at hkeyword
    cases hkeyword

/-- Behind a shape's name stands a bracket. -/
theorem call_next_not_isPunct (s : CallableShape g) {c : Char} (hc : c ≠ '<' ∧ c ≠ '(')
    (tail : List Token) : (s.typeArguments ++ s.group ++ tail).head?.any (·.isPunct c) = false := by
  rcases s.typeArguments_angles with hnil | ⟨o, inner, close, htypes, ho, -⟩
  · rw [hnil]
    exact Token.not_isPunct_of_ne s.opening_paren hc.2.symm
  · rw [htypes]
    exact Token.not_isPunct_of_ne ho hc.1.symm

theorem call_stops (s : CallableShape g) (tail : List Token) :
    Leading.Stops g (s.call ++ tail) := by
  refine stops_of_word (Token.isWord_of_isIdentifier s.name_identifier) ?_
    (s.call_next_not_isPunct (by decide) tail)
  rw [Token.not_isKeyword_of_isIdentifier s.name_identifier, Bool.false_and]

theorem closings_pos (s : CallableShape g) : 0 < parens.closings s.tokens := by
  have hlast : parens.closings [s.closing] = 1 :=
    (parens.counts_cons_closing (by decide) s.closing_paren []).2
  simp only [tokens, call, group, Bracket.closings_append, hlast]
  omega

variable {chain clause : List Token}

/-- In the tokens of a shape and a chain behind them no clause begins behind a group, if none does
in the tokens alone. -/
theorem no_clause_append (s : CallableShape g)
    (hinit : ∀ word, g.isConstructorInitializer word = true → g.isTrailingClause word = false)
    (hbal : parens.Balanced s.tokens) (hchain : chain = [] ∨ IsChain g chain)
    (hclause : ∀ u t v, s.tokens = u ++ t :: v → IsClauseKeyword g t → ¬BehindGroup u) :
    ∀ u t v, s.tokens ++ chain = u ++ t :: v → IsClauseKeyword g t → ¬BehindGroup u := by
  intro u t v hsplit ht
  -- a keyword of a clause stands in the tokens of the shape, or in the chain
  rcases List.append_eq_append_iff.mp hsplit with ⟨between, rfl, hin⟩ | ⟨between, hu, hv⟩
  · rcases hchain with rfl | h
    · cases between <;> cases hin
    · exact h.not_behindGroup hinit hbal hin ht
  · cases between with
    | nil =>
        rw [List.append_nil] at hu
        rw [List.nil_append] at hv
        rcases hchain with rfl | h
        · cases hv
        · have := h.not_behindGroup hinit hbal (u := []) hv.symm ht
          rwa [List.append_nil, hu] at this
    | cons x between =>
        obtain ⟨rfl, -⟩ := List.cons.inj hv
        exact hclause u t between hu ht

/-- What tells the parts of a shape apart, and what follows it: the leading part ends in front of
the type, the type parameters end in front of it, and no clause begins behind a group before the
clause does. -/
structure PartsApart (s : CallableShape g) (withBody : Bool) (chain clause : List Token) :
    Prop where
  leading_stops : Leading.Stops g (s.typeParameters ++ s.type)
  type_not_angle : s.type.head?.any (·.isPunct '<') = false
  tokens_balanced : parens.Balanced s.tokens
  tail : CallableHeader.Tail g withBody chain clause
  no_early_clause : ∀ u t v, s.tokens ++ chain = u ++ t :: v → IsClauseKeyword g t →
    ¬BehindGroup u

variable {withBody : Bool}

theorem PartsApart.withoutTrailingClause? {s : CallableShape g}
    (h : s.PartsApart withBody chain clause) :
    withoutTrailingClause? g (s.tokens ++ chain ++ clause) = some (s.tokens ++ chain) := by
  have hpos := s.closings_pos
  refine withoutTrailingClause?_complete ?_ ?_ h.no_early_clause h.tail.clause_trailing
  · rcases h.tail.chain_body with rfl | ⟨-, hchain⟩
    · rw [List.append_nil]
      exact h.tokens_balanced
    · exact h.tokens_balanced.append hchain.balanced
  · rw [Bracket.closings_append]
    omega

/-- **The run of a shape, with what may follow it, is read as the header that the shape
describes.** -/
theorem PartsApart.ofRun? {s : CallableShape g} (h : s.PartsApart withBody chain clause) :
    CallableHeader.ofRun? g withBody (s.tokens ++ chain ++ clause) =
      some (s.header (!chain.isEmpty)) := by
  -- what is left without the clause is cut from its end: the chain, and then the call
  have hchain : (if withBody then beforeInitializer? g (s.tokens ++ chain).reverse else none) =
      if chain.isEmpty then none else some s.tokens.reverse := by
    rcases h.tail.chain_body with rfl | ⟨rfl, hchain⟩
    · rw [List.append_nil, s.no_chain, ite_self]
      rfl
    · obtain ⟨colon, keyword, arguments, hcons, -⟩ := id hchain
      rw [beforeInitializer?_eq_some_iff.mpr ⟨chain, hchain, rfl⟩, hcons]
      rfl
  have hmain : (if chain.isEmpty then none else some s.tokens.reverse).getD
      (s.tokens ++ chain).reverse = s.tokens.reverse := by
    cases chain <;> simp
  have hshape : CallShape.ofBack? s.tokens.reverse =
      some ⟨(s.leading ++ s.typeParameters ++ s.type).reverse, s.name, s.group⟩ := by
    refine CallShape.ofBack?_eq_some_iff.mpr
      ⟨s.typeArguments, s.typeArguments_angles, s.name_identifier, s.group_isGroup, ?_⟩
    simp [tokens, call]
  -- and what stands in front of the call from its beginning
  have hleading : Leading.ofRun g (s.leading ++ s.typeParameters ++ s.type) =
      ⟨s.words.eraseDups, s.leading.length⟩ := by
    rw [List.append_assoc]
    exact Leading.ofRun_complete s.leading_reads h.leading_stops
  have hparameters : CallableHeader.withoutTypeParameters?
      ((s.leading ++ s.typeParameters ++ s.type).drop s.leading.length) = some s.type := by
    rw [List.append_assoc, List.drop_left]
    exact CallableHeader.withoutTypeParameters?_complete s.typeParameters_angles h.type_not_angle
  simp only [CallableHeader.ofRun?, h.withoutTrailingClause?, Option.bind_eq_bind,
    Option.bind_some, hchain, hmain, hshape, List.reverse_reverse, hleading, hparameters, header]
  cases chain <;> rfl

/-- The parts of a shape with a type are apart, if those words are. -/
theorem PartsApart.of_isType (s : CallableShape g)
    (hmodifier : ∀ word, g.isTypeKeyword word = true → g.isModifier word = false)
    (htype : s.type = [] ∨ IsType g s.type) (hbal : parens.Balanced s.tokens)
    (htail : CallableHeader.Tail g withBody chain clause)
    (hclause : ∀ u t v, s.tokens ++ chain = u ++ t :: v → IsClauseKeyword g t →
      ¬BehindGroup u) : s.PartsApart withBody chain clause where
  leading_stops := by simpa using stops_append hmodifier s.typeParameters_angles htype (.nil g) rfl
  type_not_angle := IsType.not_angle htype
  tokens_balanced := hbal
  tail := htail
  no_early_clause := hclause

theorem ofRun?_complete (s : CallableShape g)
    (hmodifier : ∀ word, g.isTypeKeyword word = true → g.isModifier word = false)
    (hinit : ∀ word, g.isConstructorInitializer word = true → g.isTrailingClause word = false)
    (htype : s.type = [] ∨ IsType g s.type) (hbal : parens.Balanced s.tokens)
    (htail : CallableHeader.Tail g true chain clause)
    (hclause : ∀ u t v, s.tokens = u ++ t :: v → IsClauseKeyword g t → ¬BehindGroup u) :
    CallableHeader.ofRun? g true (s.tokens ++ chain ++ clause) =
      some (s.header (!chain.isEmpty)) :=
  (PartsApart.of_isType s hmodifier htype hbal htail
    (s.no_clause_append hinit hbal (htail.chain_body.imp id And.right) hclause)).ofRun?

end CallableShape

end DeclTags
