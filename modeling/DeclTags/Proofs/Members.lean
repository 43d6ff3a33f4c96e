import DeclTags.Proofs.OnlyDeclarations

set_option autoImplicit false

/-! # Members are found

A semicolon directly in a type ends a member: a declaration without a body, with a default value, or
with an expression body. The recognizer looks for the tail of the member first, behind the first
closed group of parentheses, and reads what stands before it as a header.

`Ending` holds the three ways in which a member ends. The header of a member is cut off where its
tail begins (`Ending.memberTail?`) unless a tail begins there before, and then it is read as what it
declares (`Recognizer.semicolon_of_isMember`). The mark of a tail could begin in the header and end
behind it; that is not so where the arrow cannot begin with the end of a header
(`Grammar.ArrowApart`).

`IsDescribed` says of which form a member is described to be. That is not enough:
`Recognizer.described_not_found` has two members of that form that are not found, and `IsMember`
excludes these cases.
-/

namespace DeclTags

open DeclTags.Bracket (parens)

variable {g : Grammar} {run mark rest ending : List Token}

/-! ## Tails -/

/-- The keyword of a default value. -/
def IsDefaultKeyword (g : Grammar) (t : Token) : Prop :=
  t.isKeyword = true ∧ g.isDefaultValue t.text = true

/-- The run begins with the mark of a tail: the keyword of a default value, or an arrow. -/
def BeginsTail (g : Grammar) (run : List Token) : Prop :=
  (∃ t rest, run = t :: rest ∧ IsDefaultKeyword g t) ∨
    ∃ mark rest, run = mark ++ rest ∧ IsArrow g mark

theorem spellsFrom_complete {start : Nat} {cs : List Char} (rest : List Token)
    (hkinds : mark.map Token.kind = cs.map TokenKind.punctuation)
    (hhead : ∀ t ∈ mark.head?, t.start = start)
    (hchain : mark.IsChain fun t u => t.stop = u.start) :
    spellsFrom start cs (mark ++ rest) = true := by
  induction cs generalizing start mark with
  | nil =>
      rw [List.map_nil, List.map_eq_nil_iff] at hkinds
      rw [hkinds, List.nil_append, spellsFrom]
  | cons c cs ih =>
      rw [List.map_cons, List.map_eq_cons_iff] at hkinds
      obtain ⟨t, mark, rfl, hkind, hkinds⟩ := hkinds
      obtain ⟨hnext, hchain⟩ := List.isChain_cons.mp hchain
      have hrest := ih hkinds (fun u hu => (hnext u hu).symm) hchain
      rw [List.cons_append, spellsFrom, hrest, Token.isPunct_iff.mpr hkind, hhead t rfl,
        beq_self_eq_true]
      rfl

theorem spells_iff {text : String} : spells text run = true ↔
    ∃ mark rest, run = mark ++ rest ∧
      mark.map Token.kind = text.toList.map TokenKind.punctuation ∧
      mark.IsChain fun t u => t.stop = u.start := by
  constructor
  · intro h
    obtain ⟨mark, rest, rfl, hkinds, -, hchain⟩ := spellsFrom_sound h
    exact ⟨mark, rest, rfl, hkinds, hchain⟩
  · rintro ⟨mark, rest, rfl, hkinds, hchain⟩
    refine spellsFrom_complete rest hkinds ?_ hchain
    intro t ht
    obtain ⟨others, rfl⟩ : ∃ others, mark = t :: others := by
      cases mark with
      | nil => cases ht
      | cons u others =>
          cases ht
          exact ⟨others, rfl⟩
    rfl

theorem tailMark?_of_keyword {t : Token} (ht : IsDefaultKeyword g t) :
    tailMark? g (t :: rest) = some (.defaultValue, 1) := by
  simp [tailMark?, ht.1, ht.2]

theorem tailMark?_of_arrow (rest : List Token) (hmark : IsArrow g mark) (hne : mark ≠ []) :
    tailMark? g (mark ++ rest) = some (.expressionBody, mark.length) := by
  obtain ⟨arrow, harrow, hkinds, hchain⟩ := hmark
  have hspells : spells arrow (mark ++ rest) = true := spells_iff.mpr ⟨_, _, rfl, hkinds, hchain⟩
  have hlen : arrow.length = mark.length := by
    rw [← String.length_toList, ← List.length_map Token.kind, hkinds, List.length_map]
  -- an arrow is punctuation, so the first token is no keyword
  have hkeyword : ((mark ++ rest).head?.any fun t => t.isKeyword && g.isDefaultValue t.text) =
      false := by
    obtain ⟨t, others, rfl⟩ := List.exists_cons_of_ne_nil hne
    rw [List.map_cons, eq_comm, List.map_eq_cons_iff] at hkinds
    obtain ⟨c, cs, -, hkind, -⟩ := hkinds
    have : t.isKeyword = false := Token.not_isKeyword_of_isPunct (Token.isPunct_iff.mpr hkind.symm)
    simp [this]
  rw [tailMark?, hkeyword, if_neg Bool.false_ne_true, harrow, Option.bind_some, hspells, if_pos rfl,
    hlen]

/-- A tail is found exactly where the mark of one begins. -/
theorem tailMark?_isSome_iff : (tailMark? g run).isSome = true ↔ BeginsTail g run := by
  unfold tailMark? BeginsTail
  split
  · next h =>
    refine iff_of_true rfl (.inl ?_)
    cases run with
    | nil => cases h
    | cons t rest => exact ⟨t, rest, rfl, by simpa [IsDefaultKeyword] using h⟩
  · next h =>
    have hkeyword : ¬∃ t rest, run = t :: rest ∧ IsDefaultKeyword g t := by
      rintro ⟨t, rest, rfl, ht⟩
      exact h (by simp [ht.1, ht.2])
    rw [or_iff_right hkeyword]
    cases harrow : g.expressionBodyArrow with
    | none => simp [IsArrow, harrow]
    | some arrow =>
        rw [Option.bind_some, Option.isSome_ite, spells_iff]
        simp [IsArrow, harrow]

/-! ## Cutting a tail off -/

/-- The ways in which a member ends: at once, with a default value, or with an expression body. -/
inductive Ending (g : Grammar) : Option MemberTail → List Token → Prop
  | bodyless : Ending g none []
  | defaultValue {keyword : Token} {body : List Token} (hkeyword : IsDefaultKeyword g keyword)
      (hbody : body ≠ []) : Ending g (some .defaultValue) (keyword :: body)
  | expressionBody {mark body : List Token} (hmark : IsArrow g mark) (hbody : body ≠ []) :
      Ending g (some .expressionBody) (mark ++ body)

/-- The arrow is not empty, and does not begin with a parenthesis. -/
def Grammar.ArrowStands (g : Grammar) : Prop :=
  ∀ arrow ∈ g.expressionBodyArrow, arrow.toList ≠ [] ∧ ∀ c ∈ arrow.toList.head?, c ∉ ['(', ')']

variable {tail : Option MemberTail}

/-- An end with a tail begins with the mark of that tail, which is no parenthesis, and goes on
behind it. -/
theorem Ending.begins {kind : MemberTail} (h : Ending g (some kind) ending)
    (hg : g.ArrowStands) :
    ∃ t more n, ending = t :: more ∧ (t.isPunct '(' = false ∧ t.isPunct ')' = false) ∧
      tailMark? g ending = some (kind, n) ∧ n < ending.length := by
  cases h with
  | @defaultValue keyword body hkeyword hbody =>
      have hpunct := Token.not_isPunct_of_isWord (Token.isWord_of_isKeyword hkeyword.1)
      have hlen := List.length_pos_iff.mpr hbody
      refine ⟨keyword, body, 1, rfl, ⟨hpunct _, hpunct _⟩, tailMark?_of_keyword hkeyword, ?_⟩
      rw [List.length_cons]
      omega
  | @expressionBody mark body hmark hbody =>
      obtain ⟨arrow, harrow, hkinds, -⟩ := id hmark
      obtain ⟨hne, hparen⟩ := hg arrow harrow
      obtain ⟨c, cs, hcons⟩ := List.exists_cons_of_ne_nil hne
      rw [hcons, List.map_cons, List.map_eq_cons_iff] at hkinds
      obtain ⟨t, others, rfl, hkind, -⟩ := hkinds
      have hpunct := Token.isPunct_iff.mpr hkind
      have hc := hparen c (by rw [hcons]; rfl)
      simp only [List.mem_cons, List.not_mem_nil, or_false, not_or] at hc
      have hlen := List.length_pos_iff.mpr hbody
      refine ⟨t, others ++ body, _, List.cons_append .., ⟨Token.not_isPunct_of_ne hpunct hc.1,
        Token.not_isPunct_of_ne hpunct hc.2⟩, tailMark?_of_arrow body hmark (by simp), ?_⟩
      rw [List.length_append]
      omega

/-- **The tail of a member is cut off**, if none begins behind a group of parentheses before. -/
theorem Ending.memberTail? (h : Ending g tail ending) (hg : g.ArrowStands)
    (hbal : parens.Balanced run) (hgroup : BehindGroup run)
    (hno : ∀ u v, run = u ++ v → v ≠ [] → BehindGroup u → ¬BeginsTail g (v ++ ending)) :
    memberTail? g (run ++ ending) = tail.map fun tail => (run, tail) := by
  have hstarts : ∀ u v, run = u ++ v → v ≠ [] → BehindGroup u →
      (tailMark? g (v ++ ending)).isSome = false := fun u v huv hv hu => by
    rw [Bool.eq_false_iff, ne_eq, tailMark?_isSome_iff]
    exact hno u v huv hv hu
  cases tail with
  | none =>
      cases h
      rw [List.append_nil]
      simp only [List.append_nil] at hstarts
      have hrun : cutAfterGroup? (fun run => (tailMark? g run).isSome) run = none :=
        cutAfterGroup?_eq_none hbal hstarts
      simp only [DeclTags.memberTail?, hrun, Option.bind_eq_bind, Option.bind_none,
        Option.map_none]
  | some kind =>
      obtain ⟨t, more, n, rfl, ht, hmark, hn⟩ := h.begins hg
      have hsome : (tailMark? g (t :: more)).isSome = true := by rw [hmark, Option.isSome_some]
      have hrun : cutAfterGroup? (fun run => (tailMark? g run).isSome) (run ++ t :: more) =
          some (run, t :: more) := cutAfterGroup?_eq_some hbal hstarts hgroup ht hsome
      simp only [DeclTags.memberTail?, hrun, Option.bind_eq_bind, Option.bind_some, hmark,
        if_pos hn, Option.map_some]

/-- No arrow begins with the end of a header: only its last character may stand there. -/
structure Grammar.ArrowApart (g : Grammar) : Prop where
  stands : g.ArrowStands
  no_header : ∀ arrow ∈ g.expressionBodyArrow, ∀ c ∈ arrow.toList.dropLast,
    c ∉ ['.', ',', '<', '>', '?', ':', '(', ')', '[', ']']

theorem Grammar.arrowApart_builtin : ∀ p ∈ Profile.builtins, (ofProfile p).ArrowApart := by
  rw [Profile.builtins, List.forall_mem_cons, List.forall_mem_singleton]
  constructor
  · have harrow : (ofProfile .csharp).expressionBodyArrow = some "=>" := rfl
    constructor
    · simp only [ArrowStands, harrow, Option.mem_some_iff, forall_eq']
      refine ⟨by decide, ?_⟩
      rintro _ ⟨⟩
      decide
    · simp only [harrow, Option.mem_some_iff, forall_eq']
      rw [show "=>".toList.dropLast = ['='] from rfl, List.forall_mem_singleton]
      decide
  · have harrow : (ofProfile .java).expressionBodyArrow = none := rfl
    constructor <;> simp [ArrowStands, harrow]

/-- Where no tail begins in a header, none begins there and ends behind it. -/
theorem Grammar.ArrowApart.not_beginsTail (hg : g.ArrowApart)
    (hlast : ∀ t ∈ run.getLast?, isClauseToken t = true)
    (hno : ∀ u v, run = u ++ v → BehindGroup u → ¬BeginsTail g v) {u v : List Token}
    (hsplit : run = u ++ v) (hv : v ≠ []) (hu : BehindGroup u) : ¬BeginsTail g (v ++ ending) := by
  have hnot := hno u v hsplit hu
  -- a keyword is one token, so it stands in the header; an arrow can reach over its end
  rintro (⟨t, rest, heq, ht⟩ | ⟨mark, rest, heq, hmark⟩)
  · obtain ⟨x, others, rfl⟩ := List.exists_cons_of_ne_nil hv
    obtain ⟨rfl, -⟩ := List.cons.inj heq
    exact hnot (.inl ⟨x, others, rfl, ht⟩)
  · rcases List.append_eq_append_iff.mp heq with ⟨more, rfl, -⟩ | ⟨others, rfl, -⟩
    · -- the last token of the header is in the arrow
      obtain ⟨others, t, rfl⟩ := (List.eq_nil_or_concat' v).resolve_left hv
      rcases List.eq_nil_or_concat' more with rfl | ⟨more, last, rfl⟩
      · exact hnot (.inr ⟨others ++ [t], [], by simp, by rwa [List.append_nil] at hmark⟩)
      obtain ⟨arrow, harrow, hkinds, -⟩ := hmark
      have hclause := hlast t (by rw [hsplit, ← List.append_assoc, List.getLast?_concat]; rfl)
      have hin : t.kind ∈ (arrow.toList.map TokenKind.punctuation).dropLast := by
        rw [← hkinds, ← List.append_assoc, List.map_append, List.map_singleton,
          List.dropLast_concat]
        simp
      rw [← List.map_dropLast, List.mem_map] at hin
      obtain ⟨c, hc, hkind⟩ := hin
      rw [isClauseToken, ← hkind] at hclause
      exact hg.no_header arrow harrow c hc (List.contains_iff_mem.mp hclause)
    · exact hnot (.inr ⟨mark, others, rfl, hmark⟩)

/-! ## The form of a member -/

/-- A shape, with a chain and a clause behind it, as the header of a member is described: all
parentheses match, the parameters do not read as the arguments of a call, and behind a group of
parentheses begins no clause but the last one, and no tail. -/
structure IsDescribed (g : Grammar) (s : CallableShape g) (chain clause : List Token) : Prop where
  chain_group : chain = [] ∨ IsChain g chain
  clause_trailing : clause = [] ∨ IsTrailingClause g clause
  balanced : parens.Balanced (s.tokens ++ chain ++ clause)
  params_parameters : ∀ u t v, s.params = u ++ t :: v → ReadsAsParameter g u t
  no_early_clause : ∀ u t v, s.tokens ++ chain = u ++ t :: v → IsClauseKeyword g t →
    ¬BehindGroup u
  no_early_tail : ∀ u v, s.tokens ++ chain ++ clause = u ++ v → BehindGroup u → ¬BeginsTail g v

/-- The header of a member that ends with `tail`: there is a type and no chain; or there is none,
but an expression body and the name of the owner. The parentheses match in the shape alone. -/
structure IsMember (g : Grammar) (tracker : ScopeTracker) (s : CallableShape g)
    (chain clause : List Token) (tail : Option MemberTail) : Prop extends
    IsDescribed g s chain clause where
  type_or_owner : IsType g s.type ∧ chain = [] ∨
    s.type = [] ∧ tail = some .expressionBody ∧ tracker.IsOwner s.name.text
  tokens_balanced : parens.Balanced s.tokens

namespace IsMember

variable {tracker : ScopeTracker} {s : CallableShape g} {chain clause : List Token}

theorem declares (h : IsMember g tracker s chain clause tail) :
    Candidate.Declares g tracker (tail == some .expressionBody) s := by
  refine ⟨?_, h.params_parameters⟩
  rcases h.type_or_owner with ⟨htype, -⟩ | ⟨hnil, rfl, howner⟩
  · exact .inl htype.toIsTypeRun
  · exact .inr ⟨hnil, rfl, howner⟩

theorem chain_constructor (h : IsMember g tracker s chain clause tail) :
    chain = [] ∨ s.type = [] := h.type_or_owner.imp And.right And.left

theorem partsApart (hg : g.WordsDisjoint) (h : IsMember g tracker s chain clause tail) :
    s.PartsApart (tail == some .expressionBody) chain clause := by
  refine .of_isType s (fun _ => hg.not_modifier) ?_ h.tokens_balanced
    ⟨?_, h.clause_trailing⟩ h.no_early_clause
  · exact h.type_or_owner.symm.imp And.left And.left
  · rcases h.type_or_owner with ⟨-, hchain⟩ | ⟨-, rfl, -⟩
    · exact .inl hchain
    · exact h.chain_group.imp id fun hchain => ⟨rfl, hchain⟩

theorem behindGroup (h : IsMember g tracker s chain clause tail) :
    BehindGroup (s.tokens ++ chain ++ clause) := by
  have hpos := s.closings_pos
  refine ⟨by simpa using h.balanced.all.symm, ?_⟩
  rw [Bracket.closings_append, Bracket.closings_append]
  omega

/-- A header ends with the last token of its clause, or with a parenthesis. -/
theorem last_isClauseToken (h : IsMember g tracker s chain clause tail) :
    ∀ t ∈ (s.tokens ++ chain ++ clause).getLast?, isClauseToken t = true := by
  have hparen : ∀ {t : Token}, t.isPunct ')' = true → isClauseToken t = true := fun {t} ht => by
    rw [isClauseToken, Token.isPunct_iff.mp ht]
    rfl
  intro t ht
  rcases h.clause_trailing with rfl | ⟨keyword, body, rfl, -, hbody, hall⟩
  · rw [List.append_nil] at ht
    rcases h.chain_group with rfl | ⟨colon, keyword, _, rfl, -, -, -, o, inner, c, rfl, -, hc, -⟩
    · rw [List.append_nil, CallableShape.tokens, CallableShape.call, CallableShape.group,
        ← List.append_assoc, ← List.append_assoc, List.getLast?_concat] at ht
      cases ht
      exact hparen s.closing_paren
    · rw [← List.cons_append, ← List.cons_append, ← List.append_assoc, List.getLast?_concat] at ht
      cases ht
      exact hparen hc
  · obtain ⟨others, last, rfl⟩ := (List.eq_nil_or_concat' body).resolve_left hbody
    rw [← List.cons_append, ← List.append_assoc, List.getLast?_concat] at ht
    cases ht
    exact hall _ (by simp)

end IsMember

/-! ## The decision -/

namespace Candidate

variable {source : String} {tracker : ScopeTracker} {c : Candidate} {withBody : Bool}
  {s : CallableShape g} {chain clause : List Token}

/-- What is left of a shape that declares, with what may follow it, is decided to be a
declaration. -/
theorem callableDecision_complete (h : s.PartsApart withBody chain clause)
    (hdeclares : Declares g tracker withBody s) (hchain : chain = [] ∨ s.type = []) :
    c.callableDecision g source tracker withBody (s.tokens ++ chain ++ clause) =
      .declaration (s.symbol source tracker.path c.doc) := by
  -- a type in front of the name makes a method, and without one it has to be the owner's name
  have hkind : (s.header (!chain.isEmpty)).kind? g tracker.enclosingType? withBody =
      some (if s.type = [] then .constructor else .method) := by
    rcases hdeclares.type_or_owner with htype | ⟨hnil, hbody, howner⟩
    · have hne := htype.ne_nil
      have hrun := isTypeRun_iff.mpr htype
      simp [CallableHeader.kind?, CallableShape.header, hne, hrun, hchain.resolve_right hne]
    · have := ScopeTracker.enclosingType?_eq_some_iff.mpr howner
      simp [CallableHeader.kind?, CallableShape.header, hnil, hbody, this]
  have hreason : callReason? g s.params = none :=
    (callReason?_eq_none_iff s.params_balanced).mpr hdeclares.params_parameters
  have hline : (s.tokens ++ chain ++ clause).head? = some (s.tokens.head s.tokens_ne_nil) := by
    rw [List.append_assoc, List.head?_append_of_ne_nil _ s.tokens_ne_nil,
      List.head?_eq_some_head s.tokens_ne_nil]
  simp only [callableDecision, h.ofRun?, hkind, s.callReason?_header, hreason, hline,
    Option.map_some, Option.getD_some]
  simp only [CallableShape.header, s.groupText_group, CallableShape.symbol]

theorem mayBeMember_ofRun (hbodyless : g.bodylessDeclarations = true) (hin : tracker.InType)
    (doc : Option String) (hlen : run.length ≤ g.maxCandidateTokens) (hne : run ≠ []) :
    (ofRun g.maxCandidateTokens doc run).mayBeMember g tracker = true := by
  have hover := ofRun_overflowed doc hlen
  have hempty : (ofRun g.maxCandidateTokens doc run).isEmpty = false := by
    rw [isEmpty, List.isEmpty_eq_false_iff, ← List.reverse_ne_nil_iff, ← tokens, ofRun_tokens hover]
    exact hne
  simp [mayBeMember, hbodyless, ScopeTracker.directlyInType_iff.mpr hin, hover, hempty]

/-- What a semicolon judges is what the tail is cut off from, with a body if that is one. -/
theorem member_of_ending (hc : c.tokens = run ++ ending) (hending : Ending g tail ending)
    (htail : memberTail? g (run ++ ending) = tail.map fun tail => (run, tail)) :
    c.member g = (run, tail == some .expressionBody) := by
  rw [member, hc, htail]
  cases hending with
  | bodyless =>
      rw [List.append_nil]
      rfl
  | defaultValue => rfl
  | expressionBody => rfl

/-- **A shape that declares, with what may follow it and the end of a member, is the member that a
semicolon ends**, if its parts can be told apart and its tail is found. -/
theorem atSemicolon?_complete (h : s.PartsApart (tail == some .expressionBody) chain clause)
    (hdeclares : Declares g tracker (tail == some .expressionBody) s)
    (hchain : chain = [] ∨ s.type = []) (hending : Ending g tail ending)
    (htail : memberTail? g (s.tokens ++ chain ++ clause ++ ending) =
      tail.map fun tail => (s.tokens ++ chain ++ clause, tail))
    (hc : c.tokens = s.tokens ++ chain ++ clause ++ ending)
    (hmay : c.mayBeMember g tracker = true) :
    c.atSemicolon? g source tracker = some (.declaration (s.symbol source tracker.path c.doc)) := by
  rw [atSemicolon?, if_pos hmay, member_of_ending hc hending htail]
  simp only [callableDecision_complete h hdeclares hchain]

end Candidate

namespace Recognizer

/-- **A member is found at its semicolon**, in every grammar with disjoint word classes and an arrow
that does not begin with the end of a header; and those that are built in are such. -/
theorem semicolon_of_isMember :
    (∀ p ∈ Profile.builtins, (Grammar.ofProfile p).WordsDisjoint ∧
        (Grammar.ofProfile p).ArrowApart ∧ (Grammar.ofProfile p).bodylessDeclarations = true) ∧
      ∀ (g : Grammar) (source : String) (tracker : ScopeTracker) (r : Recognizer)
        (doc : Option String) (s : CallableShape g) (chain clause ending : List Token)
        (tail : Option MemberTail) (t : Token),
        g.WordsDisjoint → g.ArrowApart → g.bodylessDeclarations = true → tracker.InType →
        r.inParenGroup = false → IsMember g tracker s chain clause tail → Ending g tail ending →
        r.candidate = .ofRun g.maxCandidateTokens doc (s.tokens ++ chain ++ clause ++ ending) →
        (s.tokens ++ chain ++ clause ++ ending).length ≤ g.maxCandidateTokens →
        r.semicolon g source tracker t =
          (some (.declaration (s.symbol source tracker.path doc)), boundary r.suspended) := by
  constructor
  · intro p hp
    refine ⟨Grammar.wordsDisjoint_builtin p hp, Grammar.arrowApart_builtin p hp, ?_⟩
    rw [Profile.builtins, List.mem_cons, List.mem_singleton] at hp
    rcases hp with rfl | rfl <;> rfl
  intro g source tracker r doc s chain clause ending tail t hg harrow hbodyless hin hparen h hending
    hc hlen
  have htokens := Candidate.ofRun_tokens (Candidate.ofRun_overflowed doc hlen)
  have hmay := Candidate.mayBeMember_ofRun hbodyless hin doc hlen (by simp [s.tokens_ne_nil])
  have htail := hending.memberTail? harrow.stands h.balanced h.behindGroup fun u v hsplit hv hu =>
    harrow.not_beginsTail h.last_isClauseToken h.no_early_tail hsplit hv hu
  rw [semicolon, hparen, if_neg Bool.false_ne_true, hc, Candidate.atSemicolon?_complete
    (h.partsApart hg) h.declares h.chain_constructor hending htail htokens hmay,
    Candidate.ofRun_doc]

/-! ## Fixed tokens -/

/-- A run in which no token is the keyword of a clause. -/
theorem no_clause_of_all (h : run.all (fun t => !(t.isKeyword && g.isTrailingClause t.text)) = true)
    (u : List Token) (t : Token) (v : List Token) (hsplit : run = u ++ t :: v)
    (ht : IsClauseKeyword g t) : ¬BehindGroup u := by
  have := List.all_eq_true.mp h t (by simp [hsplit])
  simp [ht.1, ht.2] at this

/-- A run in which no tail begins. -/
theorem no_tail_of_all
    (h : (List.range (run.length + 1)).all (fun n => (tailMark? g (run.drop n)).isNone) = true)
    (u v : List Token) (hsplit : run = u ++ v) : BehindGroup u → ¬BeginsTail g v := by
  have hle : u.length < run.length + 1 := by
    rw [hsplit, List.length_append]
    omega
  have hnone := List.all_eq_true.mp h u.length (List.mem_range.mpr hle)
  rw [hsplit, List.drop_left, Option.isNone_iff_eq_none] at hnone
  rw [← tailMark?_isSome_iff, hnone]
  simp

open Candidate (placed constructorShape baseChain classClause)

/-- A constructor with an attribute, a default value, a chain, a clause and an expression body. -/
theorem semicolon_of_constructor :
    let g := Grammar.ofProfile .csharp
    let source := "[Obsolete] public A(int x = 1) : base(x) where T : class => y;"
    let tracker : ScopeTracker := { scopes := [⟨0, .type "A" none, 1, 0⟩] }
    let ending := [placed (.punctuation '=') "=" 57, placed (.punctuation '>') ">" 58] ++
      [placed .identifier "y" 60]
    let run := constructorShape.tokens ++ baseChain ++ classClause ++ ending
    let r : Recognizer := { candidate := .ofRun g.maxCandidateTokens none run }
    g.WordsDisjoint ∧ g.ArrowApart ∧ g.bodylessDeclarations = true ∧ tracker.InType ∧
      r.inParenGroup = false ∧
      IsMember g tracker constructorShape baseChain classClause (some .expressionBody) ∧
      Ending g (some .expressionBody) ending ∧ run.length ≤ g.maxCandidateTokens ∧
      r.semicolon g source tracker (placed (.punctuation ';') ";" 61) =
        (some (.declaration {
          name := "A"
          kind := .constructor
          modifiers := ["public"]
          parameterText := "int x = 1"
          startLine := 1
          span := ⟨18, 19, 1, 19⟩
          path := ["A"] }), boundary []) := by
  intro g source tracker ending run r
  have hcsharp : Profile.csharp ∈ Profile.builtins := List.mem_cons_self
  obtain ⟨hdisjoint, harrow, hbodyless⟩ := semicolon_of_isMember.1 _ hcsharp
  have hin : tracker.InType := ⟨_, [], "A", none, rfl, rfl⟩
  have hparen : r.inParenGroup = false := by decide +kernel
  have hmember : IsMember g tracker constructorShape baseChain classClause
      (some .expressionBody) := {
    chain_group := .inr ⟨_, _, [_, _, _], rfl, rfl, rfl, by decide +kernel,
      ⟨_, [_], _, rfl, rfl, rfl, by decide⟩⟩
    clause_trailing := .inr ⟨_, _, rfl, ⟨rfl, by decide +kernel⟩, by simp, by decide +kernel⟩
    balanced := by decide +kernel
    params_parameters := (callReason?_eq_none_iff constructorShape.params_balanced).mp
      (by decide +kernel)
    no_early_clause := no_clause_of_all (by decide +kernel)
    no_early_tail := no_tail_of_all (by decide +kernel)
    type_or_owner := .inr ⟨rfl, rfl, [], _, [], none, rfl, by simp, rfl⟩
    tokens_balanced := by decide +kernel }
  have hending : Ending g (some .expressionBody) ending :=
    .expressionBody ⟨"=>", rfl, rfl, by decide⟩ (by simp)
  have hlen : run.length ≤ g.maxCandidateTokens := by decide +kernel
  have hcandidate : r.candidate = .ofRun g.maxCandidateTokens none run := by simp only [r]
  have hfound := semicolon_of_isMember.2 g source tracker r none constructorShape baseChain
    classClause ending _ (placed (.punctuation ';') ";" 61) hdisjoint harrow hbodyless hin hparen
    hmember hending hcandidate hlen
  refine ⟨hdisjoint, harrow, hbodyless, hin, hparen, hmember, hending, hlen, hfound.trans ?_⟩
  decide +kernel

/-- `int f()` behind a leading part without modifiers. -/
def functionShape (start : Nat) (leading : List Token)
    (reads : Leading.Reads (.ofProfile .csharp) leading []) :
    CallableShape (.ofProfile .csharp) where
  leading := leading
  words := []
  typeParameters := []
  type := [placed .keyword "int" start]
  name := placed .identifier "f" (start + 4)
  typeArguments := []
  opening := placed (.punctuation '(') "(" (start + 5)
  params := []
  closing := placed (.punctuation ')') ")" (start + 6)
  leading_reads := reads
  typeParameters_angles := IsAngles.nil
  name_identifier := rfl
  typeArguments_angles := IsAngles.nil
  opening_paren := rfl
  closing_paren := rfl
  params_balanced := Bracket.Balanced.nil _

/-- `int f()` -/
def bareShape : CallableShape (.ofProfile .csharp) :=
  functionShape 0 [] ⟨[], [], rfl, .nil, .nil⟩

/-- `[(] int f()` -/
def openShape : CallableShape (.ofProfile .csharp) :=
  functionShape 4
    [placed (.punctuation '[') "[" 0, placed (.punctuation '(') "(" 1,
      placed (.punctuation ']') "]" 2]
    ⟨[_, _, _], [], rfl, .cons ⟨_, [_], _, rfl, rfl, rfl, by decide⟩ .nil, .nil⟩

/-- `: base()` -/
def emptyChain : List Token :=
  [placed (.punctuation ':') ":" 8, placed .keyword "base" 10, placed (.punctuation '(') "(" 14,
    placed (.punctuation ')') ")" 15]

/-- `where T : B )` -/
def closingClause : List Token :=
  [placed .keyword "where" 12, placed .identifier "T" 18, placed (.punctuation ':') ":" 20,
    placed .identifier "B" 22, placed (.punctuation ')') ")" 24]

/-- **Not every member of the described form is found**: a member with a type and a chain is none,
and neither is one whose clause closes a parenthesis that an attribute opens. -/
theorem described_not_found :
    let g := Grammar.ofProfile .csharp
    let tracker : ScopeTracker := { scopes := [⟨0, .type "A" none, 1, 0⟩] }
    let body := [placed (.punctuation '=') "=" 17, placed (.punctuation '>') ">" 18] ++
      [placed .number "1" 20]
    let decided (source : String) (run : List Token) : Option Decision :=
      (semicolon g source tracker (placed (.punctuation ';') ";" source.length)
        { candidate := .ofRun g.maxCandidateTokens none run }).1
    tracker.InType ∧
      (IsDescribed g bareShape emptyChain [] ∧ IsType g bareShape.type ∧
        Ending g (some .expressionBody) body ∧
        decided "int f() : base()" (bareShape.tokens ++ emptyChain) = none ∧
        decided "int f() : base() => 1" (bareShape.tokens ++ emptyChain ++ body) = none) ∧
      IsDescribed g openShape [] closingClause ∧ IsType g openShape.type ∧
        decided "[(] int f() where T : B )" (openShape.tokens ++ closingClause) = none := by
  intro g tracker body decided
  refine ⟨⟨_, [], "A", none, rfl, rfl⟩, ⟨?_, ?_, .expressionBody ⟨"=>", rfl, rfl, by decide⟩
    (by simp), by decide +kernel, by decide +kernel⟩, ?_, ?_, by decide +kernel⟩
  · exact {
      chain_group := .inr ⟨_, _, [_, _], rfl, rfl, rfl, by decide +kernel,
        ⟨_, [], _, rfl, rfl, rfl, Bracket.Balanced.nil _⟩⟩
      clause_trailing := .inl rfl
      balanced := by decide +kernel
      params_parameters := fun u _ _ h => by cases u <;> cases h
      no_early_clause := no_clause_of_all (by decide +kernel)
      no_early_tail := no_tail_of_all (by decide +kernel) }
  · exact ⟨⟨by decide +kernel, _, rfl, .inr (.inl ⟨rfl, by decide +kernel⟩)⟩, _, [], rfl,
      .inr ⟨rfl, by decide +kernel⟩⟩
  · exact {
      chain_group := .inl rfl
      clause_trailing := .inr ⟨_, _, rfl, ⟨rfl, by decide +kernel⟩, by simp, by decide +kernel⟩
      balanced := by decide +kernel
      params_parameters := fun u _ _ h => by cases u <;> cases h
      no_early_clause := no_clause_of_all (by decide +kernel)
      no_early_tail := no_tail_of_all (by decide +kernel) }
  · exact ⟨⟨by decide +kernel, _, rfl, .inr (.inl ⟨rfl, by decide +kernel⟩)⟩, _, [], rfl,
      .inr ⟨rfl, by decide +kernel⟩⟩

end Recognizer

end DeclTags
