import DeclTags.Proofs.Groups
import DeclTags.Candidate.Leading

set_option autoImplicit false

/-! # What stands before a declaration

The leading part of a declaration as a grammar: attribute lists, which are groups in square
brackets, and then annotations and modifiers in any order (`Leading.Reads`). A hyphenated modifier
counts as one only if its first word is not a modifier itself, for that is met first.

How long an annotation is depends on the tokens behind it, so that it has a place in a run
(`LeadingPiece.Stands`). What is read at the head of a run is what stands there
(`LeadingPiece.atHead?_eq_some_iff`), and nothing is read only where nothing stands
(`LeadingPiece.atHead?_eq_none_iff`).

The reader takes such a part off every run (`Leading.ofRun_sound`), and it takes all of it where the
token behind cannot belong to it (`Leading.ofRun_complete`).
-/

namespace DeclTags

/-! ## Annotations and modifiers -/

namespace LeadingPiece

/-- Names, each behind a point. -/
inductive Qualifiers : List Token → Prop
  | nil : Qualifiers []
  | cons {point name : Token} {run : List Token} (hpoint : point.isPunct '.' = true)
      (hname : name.isIdentifier = true) (hrun : Qualifiers run) :
      Qualifiers (point :: name :: run)

/-- A dotted name goes on where the run begins. -/
def NameGoesOn (run : List Token) : Prop :=
  ∃ point name rest, run = point :: name :: rest ∧ point.isPunct '.' = true ∧
    name.isIdentifier = true

/-- The arguments of an annotation, in front of `rest`: a group if a parenthesis is opened there,
and else nothing. -/
def IsArguments (arguments rest : List Token) : Prop :=
  Bracket.parens.IsGroup arguments ∨ arguments = [] ∧ rest.head?.any (·.isPunct '(') = false

/-- The tokens of an annotation or of a modifier, with the word if it is a modifier. -/
inductive Reads (g : Grammar) : List Token → Option String → Prop
  | annotated {sign name : Token} {qualifiers arguments : List Token}
      (hsign : sign.isPunct '@' = true) (hname : name.isIdentifier = true)
      (hqualifiers : Qualifiers qualifiers)
      (harguments : arguments = [] ∨ Bracket.parens.IsGroup arguments) :
      Reads g (sign :: name :: (qualifiers ++ arguments)) none
  | keyword {t : Token} (hkeyword : t.isKeyword = true) (hmodifier : g.isModifier t.text = true) :
      Reads g [t] (some t.text)
  | hyphenated {first hyphen second : Token} (hfirst : first.isWord = true)
      (hhyphen : hyphen.isPunct '-' = true) (hsecond : second.isWord = true)
      (hadjacent : first.stop = hyphen.start ∧ hyphen.stop = second.start)
      (hmodifier : g.isModifier (first.text ++ "-" ++ second.text) = true)
      (hself : (first.isKeyword && g.isModifier first.text) = false) :
      Reads g [first, hyphen, second] (some (first.text ++ "-" ++ second.text))

/-- An annotation or a modifier in its place, in front of `rest`: the name of an annotation is as
long as it can be there, and it has its arguments if a parenthesis is opened behind it. -/
inductive Stands (g : Grammar) (rest : List Token) : List Token → Option String → Prop
  | annotated {sign name : Token} {qualifiers arguments : List Token}
      (hsign : sign.isPunct '@' = true) (hname : name.isIdentifier = true)
      (hqualifiers : Qualifiers qualifiers) (hmaximal : ¬NameGoesOn (arguments ++ rest))
      (harguments : IsArguments arguments rest) :
      Stands g rest (sign :: name :: (qualifiers ++ arguments)) none
  | keyword {t : Token} (hkeyword : t.isKeyword = true) (hmodifier : g.isModifier t.text = true) :
      Stands g rest [t] (some t.text)
  | hyphenated {first hyphen second : Token} (hfirst : first.isWord = true)
      (hhyphen : hyphen.isPunct '-' = true) (hsecond : second.isWord = true)
      (hadjacent : first.stop = hyphen.start ∧ hyphen.stop = second.start)
      (hmodifier : g.isModifier (first.text ++ "-" ++ second.text) = true) :
      Stands g rest [first, hyphen, second] (some (first.text ++ "-" ++ second.text))

/-- No shorter piece is met at the head of the piece: if it has several tokens, the first one is no
modifier by itself. -/
def IsMet (g : Grammar) (piece : List Token) : Prop :=
  ∀ t u run, piece = t :: u :: run → (t.isKeyword && g.isModifier t.text) = false

/-- The annotation or modifier at the head of the run, by what is kept of it. -/
def AtHead (g : Grammar) (p : LeadingPiece) (run : List Token) : Prop :=
  ∃ piece rest, run = piece ++ rest ∧ Stands g rest piece p.modifier ∧ IsMet g piece ∧
    p.size = piece.length

variable {g : Grammar} {run rest piece : List Token} {word : Option String} {n : Nat}

theorem not_nameGoesOn (h : run.head?.any (·.isPunct '.') = false) : ¬NameGoesOn run := by
  rintro ⟨point, name, rest, rfl, hpoint, -⟩
  rw [List.head?_cons, Option.any_some, hpoint] at h
  cases h

theorem qualifierLengthFrom_sound (n : Nat) : ∀ run : List Token,
    ∃ qualifiers rest, run = qualifiers ++ rest ∧ Qualifiers qualifiers ∧ ¬NameGoesOn rest ∧
      qualifierLengthFrom n run = n + qualifiers.length
  | [] => ⟨[], [], rfl, .nil, not_nameGoesOn rfl, rfl⟩
  | [t] => by
      refine ⟨[], [t], rfl, .nil, ?_, rfl⟩
      rintro ⟨_, _, _, ⟨⟩, -⟩
  | point :: name :: run => by
      rw [qualifierLengthFrom]
      split
      · next h =>
        rw [Bool.and_eq_true] at h
        obtain ⟨qualifiers, rest, hrun, hq, hmaximal, hn⟩ := qualifierLengthFrom_sound (n + 2) run
        refine ⟨point :: name :: qualifiers, rest, by rw [hrun]; rfl, .cons h.1 h.2 hq, hmaximal,
          ?_⟩
        rw [hn, List.length_cons, List.length_cons]
        omega
      · next h =>
        refine ⟨[], point :: name :: run, rfl, .nil, ?_, rfl⟩
        rintro ⟨_, _, _, heq, hpoint, hname⟩
        cases heq
        exact h (by rw [hpoint, hname, Bool.and_self])

theorem qualifierLengthFrom_complete {qualifiers : List Token} (h : Qualifiers qualifiers)
    (hmaximal : ¬NameGoesOn rest) (n : Nat) :
    qualifierLengthFrom n (qualifiers ++ rest) = n + qualifiers.length := by
  induction h generalizing n with
  | nil =>
      match rest, hmaximal with
      | [], _ => rfl
      | [t], _ => rfl
      | t :: u :: rest, hmaximal =>
        rw [List.nil_append, qualifierLengthFrom, if_neg]
        · rfl
        · intro h
          rw [Bool.and_eq_true] at h
          exact hmaximal ⟨t, u, rest, rfl, h⟩
  | cons hpoint hname _ ih =>
      rw [List.cons_append, List.cons_append, qualifierLengthFrom, hpoint, hname, Bool.and_self,
        if_pos rfl, ih, List.length_cons, List.length_cons]
      omega

theorem argumentsLength?_sound (h : argumentsLength? run = some n) :
    ∃ arguments rest, run = arguments ++ rest ∧ IsArguments arguments rest ∧
      n = arguments.length := by
  unfold argumentsLength? at h
  split at h
  · next ho =>
    obtain ⟨group, rest, hg, hrun, hn⟩ := (Bracket.groupLength_eq_some_iff (by decide) ho).mp h
    exact ⟨group, rest, hrun, .inl hg, hn⟩
  · next ho =>
    cases h
    exact ⟨[], run, rfl, .inr ⟨rfl, Bool.not_eq_true _ ▸ ho⟩, rfl⟩

theorem argumentsLength?_complete {arguments : List Token} (h : IsArguments arguments rest) :
    argumentsLength? (arguments ++ rest) = some arguments.length := by
  rcases h with hg | ⟨rfl, hrest⟩
  · have ho : (arguments ++ rest).head?.any (·.isPunct '(') = true := hg.head?_any rest
    rw [argumentsLength?, if_pos ho]
    exact (Bracket.groupLength_eq_some_iff (by decide) ho).mpr ⟨arguments, rest, hg, rfl, rfl⟩
  · simp [argumentsLength?, hrest]

/-- A piece that begins with no modifier is met. -/
theorem isMet_cons {t : Token} (h : (t.isKeyword && g.isModifier t.text) = false)
    (run : List Token) : IsMet g (t :: run) := by
  rintro _ _ _ ⟨⟩
  exact h

theorem isMet_singleton (t : Token) : IsMet g [t] := by
  rintro _ _ _ ⟨⟩

/-- Punctuation is no modifier. -/
theorem not_modifier_of_isPunct {t : Token} {c : Char} (h : t.isPunct c = true) :
    (t.isKeyword && g.isModifier t.text) = false := by
  cases hk : t.isKeyword
  · rfl
  · rw [Token.not_isPunct_of_isWord (Token.isWord_of_isKeyword hk)] at h
    cases h

theorem annotation?_sound {p : LeadingPiece} (h : annotation? run = some p) : AtHead g p run := by
  match run, h with
  | sign :: name :: run, h =>
    rw [annotation?] at h
    split at h
    · next hs =>
      rw [Bool.and_eq_true] at hs
      obtain ⟨k, hk, rfl⟩ := Option.map_eq_some_iff.mp h
      obtain ⟨qualifiers, rest, rfl, hq, hmaximal, hn⟩ := qualifierLengthFrom_sound 0 run
      rw [hn, Nat.zero_add, List.drop_left] at hk
      obtain ⟨arguments, rest, rfl, ha, rfl⟩ := argumentsLength?_sound hk
      refine ⟨sign :: name :: (qualifiers ++ arguments), rest, by simp,
        .annotated hs.1 hs.2 hq hmaximal ha, isMet_cons (not_modifier_of_isPunct hs.1) _, ?_⟩
      simp only [hn, List.length_cons, List.length_append]
      omega
    · cases h

theorem keyword?_sound {p : LeadingPiece} (h : keyword? g run = some p) : AtHead g p run := by
  match run, h with
  | t :: run, h =>
    rw [keyword?] at h
    split at h
    · next ht =>
      rw [Bool.and_eq_true] at ht
      cases h
      exact ⟨[t], run, rfl, .keyword ht.1 ht.2, isMet_singleton t, rfl⟩
    · cases h

theorem hyphenated?_sound {p : LeadingPiece} (h : hyphenated? g run = some p)
    (hself : keyword? g run = none) : AtHead g p run := by
  match run, h with
  | first :: hyphen :: second :: run, h =>
    rw [hyphenated?] at h
    split at h
    · next ht =>
      simp only [Bool.and_eq_true, beq_iff_eq] at ht
      obtain ⟨⟨⟨⟨⟨hfirst, hhyphen⟩, hsecond⟩, hstop⟩, hstart⟩, hmodifier⟩ := ht
      have hself : (first.isKeyword && g.isModifier first.text) = false := by
        simpa [keyword?] using hself
      cases h
      exact ⟨[first, hyphen, second], run, rfl,
        .hyphenated hfirst hhyphen hsecond ⟨hstop, hstart⟩ hmodifier, isMet_cons hself _, rfl⟩
    · cases h

theorem atHead?_eq_or (g : Grammar) (run : List Token) :
    atHead? g run = (annotation? run).or ((keyword? g run).or (hyphenated? g run)) := by
  unfold atHead?
  cases annotation? run <;> cases keyword? g run <;> rfl

/-- What is read at the head of a run stands there. -/
theorem atHead_of_atHead? {p : LeadingPiece} (h : atHead? g run = some p) : AtHead g p run := by
  simp only [atHead?_eq_or, Option.or_eq_some_iff] at h
  rcases h with ha | ⟨-, hk | ⟨hk, hh⟩⟩
  · exact annotation?_sound ha
  · exact keyword?_sound hk
  · exact hyphenated?_sound hh hk

theorem annotation?_of_not_sign {t : Token} (h : t.isPunct '@' = false) (run : List Token) :
    annotation? (t :: run) = none := by
  cases run <;> simp [annotation?, h]

/-- A modifier by itself is read before anything longer. -/
theorem atHead?_of_modifier {t : Token} (hkeyword : t.isKeyword = true)
    (hmodifier : g.isModifier t.text = true) (run : List Token) :
    atHead? g (t :: run) = some ⟨1, some t.text, Nat.one_pos⟩ := by
  have hsign := Token.not_isPunct_of_isWord (Token.isWord_of_isKeyword hkeyword) '@'
  rw [atHead?_eq_or, annotation?_of_not_sign hsign]
  simp [keyword?, hkeyword, hmodifier]

/-- What stands at the head of a run, and nothing shorter, is read there. -/
theorem Stands.atHead? (h : Stands g rest piece word) (hmet : IsMet g piece) :
    ∃ p, atHead? g (piece ++ rest) = some p ∧ p.size = piece.length ∧ p.modifier = word := by
  cases h with
  | @annotated sign name qualifiers arguments hsign hname hq hmaximal ha =>
      have hargs : argumentsLength? (arguments ++ rest) = some arguments.length :=
        argumentsLength?_complete ha
      have hquals := qualifierLengthFrom_complete hq hmaximal 0
      rw [Nat.zero_add] at hquals
      refine ⟨⟨2 + qualifiers.length + arguments.length, none, by omega⟩, ?_, ?_, rfl⟩
      · simp [atHead?_eq_or, annotation?, hsign, hname, hquals, hargs]
      · simp only [List.length_cons, List.length_append]
        omega
  | keyword hkeyword hmodifier =>
      exact ⟨_, atHead?_of_modifier hkeyword hmodifier rest, rfl, rfl⟩
  | @hyphenated first hyphen second hfirst hhyphen hsecond hadjacent hmodifier =>
      have hsign := Token.not_isPunct_of_isWord hfirst '@'
      have hkeyword : keyword? g (first :: hyphen :: second :: rest) = none := by
        rw [keyword?, hmet _ _ _ rfl, if_neg Bool.false_ne_true]
      refine ⟨⟨3, some (first.text ++ "-" ++ second.text), by omega⟩, ?_, rfl, rfl⟩
      simp [atHead?_eq_or, annotation?_of_not_sign hsign, hkeyword, hyphenated?, hfirst, hhyphen,
        hsecond, hadjacent, hmodifier]

/-- **What is read at the head of a run is what stands there**, the shortest first. -/
theorem atHead?_eq_some_iff {p : LeadingPiece} : atHead? g run = some p ↔ AtHead g p run := by
  refine ⟨atHead_of_atHead?, ?_⟩
  rintro ⟨piece, rest, rfl, hstands, hmet, hsize⟩
  obtain ⟨q, hq, hsize', hmodifier⟩ := hstands.atHead? hmet
  rw [hq]
  cases p
  cases q
  cases hsize'.trans hsize.symm
  cases hmodifier
  rfl

/-- **Nothing is read only where nothing stands.** -/
theorem atHead?_eq_none_iff : atHead? g run = none ↔
    ∀ piece rest word, run = piece ++ rest → ¬Stands g rest piece word := by
  constructor
  · rintro hnone piece rest word rfl h
    -- a hyphenated modifier may begin with a modifier, which is then read
    by_cases hmet : IsMet g piece
    · obtain ⟨p, hp, -⟩ := h.atHead? hmet
      rw [hnone] at hp
      cases hp
    · unfold IsMet at hmet
      push Not at hmet
      obtain ⟨t, u, tail, rfl, hself⟩ := hmet
      rw [ne_eq, Bool.not_eq_false, Bool.and_eq_true] at hself
      rw [List.cons_append, atHead?_of_modifier hself.1 hself.2] at hnone
      cases hnone
  · intro hno
    cases hp : atHead? g run with
    | none => rfl
    | some p =>
        obtain ⟨piece, rest, hrun, hstands, -⟩ := atHead_of_atHead? hp
        exact absurd hstands (hno piece rest _ hrun)

/-- Nothing is read at the head of a run that begins with another token, if no hyphen stands behind
a word there. -/
theorem atHead?_eq_none {t : Token} (hsign : t.isPunct '@' = false)
    (hself : (t.isKeyword && g.isModifier t.text) = false)
    (hhyphen : t.isWord = true → run.head?.any (·.isPunct '-') = false) :
    atHead? g (t :: run) = none := by
  have hh : hyphenated? g (t :: run) = none := by
    match run, hhyphen with
    | [], _ => rfl
    | [_], _ => rfl
    | u :: v :: run, hhyphen =>
      rw [List.head?_cons, Option.any_some] at hhyphen
      cases hw : t.isWord
      · simp [hyphenated?, hw]
      · simp [hyphenated?, hhyphen hw]
  rw [atHead?_eq_or, annotation?_of_not_sign hsign, keyword?, hself, hh]
  rfl

/-- What stands in a place is an annotation or a modifier. -/
theorem Stands.reads (h : Stands g rest piece word) (hmet : IsMet g piece) :
    Reads g piece word := by
  cases h with
  | annotated hsign hname hqualifiers _ harguments =>
      exact .annotated hsign hname hqualifiers (harguments.symm.imp_left And.left)
  | keyword hkeyword hmodifier => exact .keyword hkeyword hmodifier
  | hyphenated hfirst hhyphen hsecond hadjacent hmodifier =>
      exact .hyphenated hfirst hhyphen hsecond hadjacent hmodifier (hmet _ _ _ rfl)

/-- An annotation or a modifier has its place where neither a point nor an opening parenthesis is
behind it. -/
theorem Reads.stands (h : Reads g piece word) (hpoint : rest.head?.any (·.isPunct '.') = false)
    (hparen : rest.head?.any (·.isPunct '(') = false) :
    Stands g rest piece word ∧ IsMet g piece := by
  cases h with
  | @annotated sign name qualifiers arguments hsign hname hq ha =>
      have hnext : (arguments ++ rest).head?.any (·.isPunct '.') = false := by
        rcases ha with rfl | ⟨o, inner, c, rfl, ho, -⟩
        · exact hpoint
        · exact Token.not_isPunct_of_ne ho (by decide)
      exact ⟨.annotated hsign hname hq (not_nameGoesOn hnext)
        (ha.symm.imp_right fun hnil => ⟨hnil, hparen⟩),
        isMet_cons (not_modifier_of_isPunct hsign) _⟩
  | keyword hkeyword hmodifier => exact ⟨.keyword hkeyword hmodifier, isMet_singleton _⟩
  | hyphenated hfirst hhyphen hsecond hadjacent hmodifier hself =>
      exact ⟨.hyphenated hfirst hhyphen hsecond hadjacent hmodifier, isMet_cons hself _⟩

/-- An annotation or a modifier begins with `@` or with a word. -/
theorem Stands.exists_cons (h : Stands g rest piece word) :
    ∃ t run, piece = t :: run ∧ (t.isPunct '@' = true ∨ t.isWord = true) := by
  cases h with
  | annotated hsign => exact ⟨_, _, rfl, .inl hsign⟩
  | keyword hkeyword => exact ⟨_, _, rfl, .inr (Token.isWord_of_isKeyword hkeyword)⟩
  | hyphenated hfirst => exact ⟨_, _, rfl, .inr hfirst⟩

theorem Reads.exists_cons (h : Reads g piece word) :
    ∃ t run, piece = t :: run ∧ (t.isPunct '@' = true ∨ t.isWord = true) :=
  (@Reads.stands g [] piece word h rfl rfl).1.exists_cons

theorem Reads.head_isPunct {t : Token} (h : Reads g (t :: run) word) {c : Char} (hc : c ≠ '@') :
    t.isPunct c = false := by
  obtain ⟨u, rest, heq, hu⟩ := h.exists_cons
  obtain ⟨rfl, -⟩ := List.cons.inj heq
  rcases hu with hu | hu
  · exact Token.not_isPunct_of_ne hu hc.symm
  · exact Token.not_isPunct_of_isWord hu c

end LeadingPiece

/-! ## Attribute lists -/

/-- Groups in square brackets, one behind the other. -/
inductive AttributeLists : List Token → Prop
  | nil : AttributeLists []
  | cons {list run : List Token} (hlist : Bracket.squares.IsGroup list)
      (hrun : AttributeLists run) : AttributeLists (list ++ run)

theorem attributesLengthFrom_sound {n m : Nat} {run : List Token}
    (h : attributesLengthFrom n run = some m) :
    ∃ lists rest, run = lists ++ rest ∧ AttributeLists lists ∧
      rest.head?.any (·.isPunct '[') = false ∧ m = n + lists.length := by
  revert h
  fun_induction attributesLengthFrom n run with
  | case1 =>
      intro h
      cases h
  | case2 n run ho k hk ih =>
      intro h
      obtain ⟨group, rest, hg, rfl, rfl⟩ :=
        (Bracket.groupLength_eq_some_iff (by decide) ho).mp hk
      rw [List.drop_left] at ih h
      obtain ⟨lists, rest, rfl, hl, hrest, rfl⟩ := ih h
      refine ⟨group ++ lists, rest, by simp, .cons hg hl, hrest, ?_⟩
      rw [List.length_append]
      omega
  | case3 n run ho =>
      intro h
      cases h
      exact ⟨[], run, rfl, .nil, Bool.not_eq_true _ ▸ ho, rfl⟩

/-- Attribute lists are passed over. -/
theorem attributesLengthFrom_append {lists : List Token} (h : AttributeLists lists) (n : Nat)
    (rest : List Token) :
    attributesLengthFrom n (lists ++ rest) = attributesLengthFrom (n + lists.length) rest := by
  induction h generalizing n with
  | nil => rfl
  | @cons group lists hg _ ih =>
      rw [List.append_assoc]
      have ho : (group ++ (lists ++ rest)).head?.any (·.isPunct '[') = true := hg.head?_any _
      have hk : Bracket.squares.groupLength (group ++ (lists ++ rest)) = some group.length :=
        (Bracket.groupLength_eq_some_iff (by decide) ho).mpr ⟨_, _, hg, rfl, rfl⟩
      rw [attributesLengthFrom_eq, if_pos ho, hk, Option.bind_some, List.drop_left, ih,
        List.length_append, Nat.add_assoc]

theorem attributesLengthFrom_complete {lists rest : List Token} (h : AttributeLists lists)
    (hrest : rest.head?.any (·.isPunct '[') = false) (n : Nat) :
    attributesLengthFrom n (lists ++ rest) = some (n + lists.length) := by
  rw [attributesLengthFrom_append h, attributesLengthFrom_eq, hrest, if_neg Bool.false_ne_true]

/-! ## The leading part -/

namespace Leading

/-- Annotations and modifiers, with the words of the modifiers. -/
inductive Pieces (g : Grammar) : List Token → List String → Prop
  | nil : Pieces g [] []
  | cons {piece run : List Token} {word : Option String} {words : List String}
      (hpiece : LeadingPiece.Reads g piece word) (hrun : Pieces g run words) :
      Pieces g (piece ++ run) (word.toList ++ words)

/-- A leading part, with the words of its modifiers. -/
def Reads (g : Grammar) (leading : List Token) (words : List String) : Prop :=
  ∃ lists pieces, leading = lists ++ pieces ∧ AttributeLists lists ∧ Pieces g pieces words

variable {g : Grammar} {run rest leading pieces : List Token} {words before : List String}
  {l : Leading}

/-- A modifier is added unless it is there already. -/
theorem add_modifiers (h : l.modifiers = words.eraseDups) (p : LeadingPiece) :
    (l.add p).modifiers = (words ++ p.modifier.toList).eraseDups := by
  rw [add, List.eraseDups_append]
  cases p.modifier with
  | none => simp [h, List.removeAll]
  | some word =>
      by_cases hw : word ∈ words
      · simp [h, hw, List.removeAll]
      · simp [h, hw, List.removeAll, List.eraseDups_cons]

/-- Annotations and modifiers, each in its place, in front of `rest`, with the words of the
modifiers. A modifier is never the first word of a longer one. -/
inductive PiecesBefore (g : Grammar) (rest : List Token) : List Token → List String → Prop
  | nil : PiecesBefore g rest [] []
  | cons {piece run : List Token} {word : Option String} {words : List String}
      (hpiece : LeadingPiece.Stands g (run ++ rest) piece word) (hmet : LeadingPiece.IsMet g piece)
      (hrun : PiecesBefore g rest run words) :
      PiecesBefore g rest (piece ++ run) (word.toList ++ words)

theorem PiecesBefore.toPieces (h : PiecesBefore g rest pieces words) : Pieces g pieces words := by
  induction h with
  | nil => exact .nil
  | cons hpiece hmet _ ih => exact .cons (hpiece.reads hmet) ih

/-- What stands at the head of a run is added to the leading part, up to where nothing stands. -/
theorem extend_sound (run : List Token) (h : l.modifiers = before.eraseDups) :
    ∃ pieces rest words, run = pieces ++ rest ∧ PiecesBefore g rest pieces words ∧
      LeadingPiece.atHead? g rest = none ∧
      extend g l run = ⟨(before ++ words).eraseDups, l.size + pieces.length⟩ := by
  fun_induction extend g l run generalizing before with
  | case1 l run hnone =>
      refine ⟨[], run, [], rfl, .nil, hnone, ?_⟩
      rw [List.append_nil, ← h]
      rfl
  | case2 l run p hp ih =>
      obtain ⟨piece, rest, rfl, hpiece, hmet, hsize⟩ := LeadingPiece.atHead?_eq_some_iff.mp hp
      rw [hsize, List.drop_left] at ih
      obtain ⟨pieces, rest, words, rfl, hpieces, hnone, heq⟩ := ih (add_modifiers h p)
      refine ⟨piece ++ pieces, rest, _, by simp, .cons hpiece hmet hpieces, hnone, ?_⟩
      have hadd : (l.add p).size = l.size + piece.length := by rw [← hsize]; rfl
      rw [hsize, List.drop_left, heq, hadd, List.append_assoc, List.length_append, Nat.add_assoc]

/-- Annotations and modifiers in their place are added all. -/
theorem extend_append (h : PiecesBefore g rest pieces words)
    (hnone : LeadingPiece.atHead? g rest = none) (hl : l.modifiers = before.eraseDups) :
    extend g l (pieces ++ rest) = ⟨(before ++ words).eraseDups, l.size + pieces.length⟩ := by
  induction h generalizing l before with
  | nil =>
      rw [List.nil_append, extend_eq, hnone, List.append_nil, ← hl]
      rfl
  | @cons piece pieces word words hpiece hmet _ ih =>
      obtain ⟨p, hp, hsize, rfl⟩ := hpiece.atHead? hmet
      have hadd : (l.add p).size = l.size + piece.length := by rw [← hsize]; rfl
      rw [List.append_assoc, extend_eq, hp]
      simp only
      rw [hsize, List.drop_left, ih (add_modifiers hl p), hadd, List.append_assoc,
        List.length_append, Nat.add_assoc]

/-- What stands behind a leading part and cannot belong to it. -/
structure Stops (g : Grammar) (rest : List Token) : Prop where
  no_piece : LeadingPiece.atHead? g rest = none
  no_point : rest.head?.any (·.isPunct '.') = false
  no_paren : rest.head?.any (·.isPunct '(') = false
  no_list : rest.head?.any (·.isPunct '[') = false

theorem Stops.nil (g : Grammar) : Stops g [] := ⟨rfl, rfl, rfl, rfl⟩

/-- Annotations and modifiers begin with no punctuation but `@`. -/
theorem Pieces.head_not_isPunct (h : Pieces g pieces words) {c : Char} (hc : c ≠ '@')
    (hrest : rest.head?.any (·.isPunct c) = false) :
    (pieces ++ rest).head?.any (·.isPunct c) = false := by
  cases h with
  | nil => exact hrest
  | cons hpiece hrun =>
      obtain ⟨t, piece, rfl, -⟩ := hpiece.exists_cons
      simp [hpiece.head_isPunct hc]

theorem Pieces.piecesBefore (h : Pieces g pieces words)
    (hpoint : rest.head?.any (·.isPunct '.') = false)
    (hparen : rest.head?.any (·.isPunct '(') = false) : PiecesBefore g rest pieces words := by
  induction h with
  | nil => exact .nil
  | cons hpiece hpieces ih =>
      obtain ⟨hstands, hmet⟩ := hpiece.stands (hpieces.head_not_isPunct (by decide) hpoint)
        (hpieces.head_not_isPunct (by decide) hparen)
      exact .cons hstands hmet ih

/-- Either an attribute list is left open and nothing is taken off the run, or all that stands there
in its place is. -/
theorem ofRun_cases (g : Grammar) (run : List Token) :
    (attributesLengthFrom 0 run = none ∧ ofRun g run = {}) ∨
      ∃ lists pieces rest words, run = lists ++ (pieces ++ rest) ∧ AttributeLists lists ∧
        (pieces ++ rest).head?.any (·.isPunct '[') = false ∧ PiecesBefore g rest pieces words ∧
        LeadingPiece.atHead? g rest = none ∧
        ofRun g run = ⟨words.eraseDups, lists.length + pieces.length⟩ := by
  unfold ofRun
  split
  · next hopen => exact .inl ⟨hopen, rfl⟩
  · next n hn =>
    obtain ⟨lists, rest, rfl, hlists, hlist, rfl⟩ := attributesLengthFrom_sound hn
    rw [Nat.zero_add, List.drop_left]
    have hempty : ({ size := lists.length } : Leading).modifiers = ([] : List String).eraseDups :=
      rfl
    obtain ⟨pieces, rest, words, rfl, hpieces, hnone, heq⟩ := extend_sound (g := g) rest hempty
    exact .inr ⟨lists, pieces, rest, words, rfl, hlists, hlist, hpieces, hnone, heq⟩

/-- **What is taken off a run is a leading part.** -/
theorem ofRun_sound (g : Grammar) (run : List Token) :
    ∃ leading rest words, run = leading ++ rest ∧ Reads g leading words ∧
      ofRun g run = ⟨words.eraseDups, leading.length⟩ := by
  rcases ofRun_cases g run with ⟨-, hempty⟩ |
    ⟨lists, pieces, rest, words, rfl, hlists, -, hpieces, -, heq⟩
  · exact ⟨[], run, [], rfl, ⟨[], [], rfl, .nil, .nil⟩, hempty⟩
  · refine ⟨lists ++ pieces, rest, words, by simp, ⟨lists, pieces, rfl, hlists,
      hpieces.toPieces⟩, ?_⟩
    rw [heq, List.length_append]

/-- What stands in its place is taken off a run, up to where nothing stands. -/
theorem ofRun_append {lists : List Token} (hlists : AttributeLists lists)
    (hlist : (pieces ++ rest).head?.any (·.isPunct '[') = false)
    (h : PiecesBefore g rest pieces words) (hnone : LeadingPiece.atHead? g rest = none) :
    ofRun g (lists ++ (pieces ++ rest)) = ⟨words.eraseDups, lists.length + pieces.length⟩ := by
  have hn := attributesLengthFrom_complete hlists hlist 0
  rw [Nat.zero_add] at hn
  rw [ofRun, hn]
  simp only
  have hempty : ({ size := lists.length } : Leading).modifiers = ([] : List String).eraseDups :=
    rfl
  rw [List.drop_left, extend_append h hnone hempty, List.nil_append]

/-- **A leading part is taken off a run as a whole, if what stands behind it stops it.** -/
theorem ofRun_complete (h : Reads g leading words) (hstop : Stops g rest) :
    ofRun g (leading ++ rest) = ⟨words.eraseDups, leading.length⟩ := by
  obtain ⟨lists, pieces, rfl, hlists, hpieces⟩ := h
  rw [List.append_assoc, List.length_append]
  exact ofRun_append hlists (hpieces.head_not_isPunct (by decide) hstop.no_list)
    (hpieces.piecesBefore hstop.no_point hstop.no_paren) hstop.no_piece

/-! ## The first token -/

theorem Reads.cons_cases {t : Token} (h : Reads g (t :: run) words) (ht : t.isWord = true) :
    (t.isKeyword = true ∧ g.isModifier t.text = true ∧ ∃ words', Pieces g run words') ∨
      ∃ hyphen second run', run = hyphen :: second :: run' ∧ hyphen.isPunct '-' = true ∧
        g.isModifier (t.text ++ "-" ++ second.text) = true := by
  obtain ⟨lists, pieces, heq, hlists, hpieces⟩ := h
  cases hlists with
  | cons hlist _ =>
      obtain ⟨o, inner, c, rfl, ho, -⟩ := hlist
      obtain ⟨rfl, -⟩ := List.cons.inj heq
      rw [Token.not_isPunct_of_isWord ht] at ho
      cases ho
  | nil =>
      cases hpieces with
      | nil => cases heq
      | cons hpiece hrun =>
          cases hpiece with
          | annotated hsign =>
              obtain ⟨rfl, -⟩ := List.cons.inj heq
              rw [Token.not_isPunct_of_isWord ht] at hsign
              cases hsign
          | keyword hkeyword hmodifier =>
              obtain ⟨rfl, rfl⟩ := List.cons.inj heq
              exact .inl ⟨hkeyword, hmodifier, _, hrun⟩
          | hyphenated _ hhyphen _ _ hmodifier =>
              obtain ⟨rfl, rfl⟩ := List.cons.inj heq
              exact .inr ⟨_, _, _, rfl, hhyphen, hmodifier⟩

/-- Behind a leading part's first word no punctuation stands that neither begins an annotation nor
is a hyphen. -/
theorem Reads.next_not_isPunct {t : Token} (h : Reads g (t :: run) words) (ht : t.isWord = true)
    {c : Char} (hc : c ≠ '@' ∧ c ≠ '-') (hrest : rest.head?.any (·.isPunct c) = false) :
    (run ++ rest).head?.any (·.isPunct c) = false := by
  rcases h.cons_cases ht with ⟨-, -, words', hrun⟩ | ⟨hyphen, second, run, rfl, hhyphen, -⟩
  · exact hrun.head_not_isPunct hc.1 hrest
  · exact Token.not_isPunct_of_ne hhyphen hc.2.symm

end Leading

end DeclTags
