import DeclTags.Proofs.Callables

set_option autoImplicit false

/-! # How a run begins

A run whose first word behind its labels is a control keyword opens a control block, unless the
keyword is a modifier too and no parenthesis follows (`startsWithControl_eq_false_iff`). The run of
a callable's shape never begins like that (`CallableShape.not_startsWithControl`), nor like the
declaration of a type (`CallableShape.typeHeader_eq_none`).
-/

namespace DeclTags

/-! ## Control blocks -/

/-- Names, each with a colon behind it. -/
inductive Labels : List Token → Prop
  | nil : Labels []
  | cons {label colon : Token} {run : List Token} (hlabel : label.isIdentifier = true)
      (hcolon : colon.isPunct ':' = true) (hrun : Labels run) : Labels (label :: colon :: run)

variable {g : Grammar} {run rest : List Token} {t : Token}

theorem withoutLabels_sound (run : List Token) :
    ∃ labels, Labels labels ∧ run = labels ++ withoutLabels run := by
  fun_induction withoutLabels run with
  | case1 label colon run h ih =>
      rw [Bool.and_eq_true] at h
      obtain ⟨labels, hlabels, heq⟩ := ih
      refine ⟨label :: colon :: labels, .cons h.1 h.2 hlabels, ?_⟩
      rw [List.cons_append, List.cons_append, ← heq]
  | case2 label colon run => exact ⟨[], .nil, rfl⟩
  | case3 run => exact ⟨[], .nil, rfl⟩

theorem withoutLabels_complete {labels : List Token} (h : Labels labels)
    (ht : t.isIdentifier = false) : withoutLabels (labels ++ t :: rest) = t :: rest := by
  induction h with
  | nil => cases rest <;> simp [withoutLabels, ht]
  | cons hlabel hcolon _ ih => simp [withoutLabels, hlabel, hcolon, ih]

/-- **What is no control block begins with no control keyword behind its labels, unless this is a
modifier too and no parenthesis follows.** -/
theorem startsWithControl_eq_false_iff :
    startsWithControl g run = false ↔
      ∀ labels t rest, run = labels ++ t :: rest → Labels labels → t.isKeyword = true →
        g.isControl t.text = true →
          g.isModifier t.text = true ∧ rest.head?.any (·.isPunct '(') = false := by
  constructor
  · rintro h labels t rest rfl hlabels hk hcontrol
    have hid : t.isIdentifier = false := by
      by_contra hne
      rw [Bool.not_eq_false] at hne
      rw [Token.not_isKeyword_of_isIdentifier hne] at hk
      cases hk
    rw [startsWithControl, withoutLabels_complete hlabels hid] at h
    simpa [hk, hcontrol] using h
  · intro h
    obtain ⟨labels, hlabels, heq⟩ := withoutLabels_sound run
    rw [startsWithControl]
    cases hrest : withoutLabels run with
    | nil => rfl
    | cons t rest =>
        rw [hrest] at heq
        by_cases hk : (t.isKeyword && g.isControl t.text) = true
        · rw [Bool.and_eq_true] at hk
          obtain ⟨hmodifier, hparen⟩ := h labels t rest heq hlabels hk.1 hk.2
          simp [hmodifier, hparen]
        · rw [Bool.not_eq_true] at hk
          simp [hk]

/-- A run that does not begin with a label or a control keyword opens no control block. -/
theorem startsWithControl_cons_eq_false
    (hlabel : t.isIdentifier = true → rest.head?.any (·.isPunct ':') = false)
    (hcontrol : t.isKeyword = true → g.isControl t.text = true →
      g.isModifier t.text = true ∧ rest.head?.any (·.isPunct '(') = false) :
    startsWithControl g (t :: rest) = false := by
  rw [startsWithControl_eq_false_iff]
  intro labels u after heq hlabels hk hword
  cases hlabels with
  | nil =>
      obtain ⟨rfl, rfl⟩ := List.cons.inj heq
      exact hcontrol hk hword
  | @cons label colon labels hid hcolon _ =>
      obtain ⟨rfl, rfl⟩ := List.cons.inj heq
      have hnot : colon.isPunct ':' = false := hlabel hid
      rw [hcolon] at hnot
      cases hnot

namespace CallableShape

/-! ## Behind the leading part -/

/-- Everything behind the leading part, and more. -/
def afterLeading (s : CallableShape g) (tail : List Token) : List Token :=
  s.typeParameters ++ (s.type ++ (s.call ++ tail))

theorem tokens_append (s : CallableShape g) (tail : List Token) :
    s.tokens ++ tail = s.leading ++ s.afterLeading tail := by
  simp [tokens, afterLeading]

/-- Tokens of a type and the name behind them are no punctuation but that of types. -/
theorem types_head_not_isPunct (s : CallableShape g) {types : List Token}
    (h : ∀ t ∈ types, isTypeToken g t = true) {c : Char}
    (hc : c ∉ ['<', '>', ',', '.', '?', '[', ']', '&']) (tail : List Token) :
    (types ++ (s.call ++ tail)).head?.any (·.isPunct c) = false := by
  cases types with
  | nil => exact Token.not_isPunct_of_isIdentifier s.name_identifier c
  | cons t types => exact isTypeToken_not_isPunct (h t List.mem_cons_self) hc

/-- Behind the leading part stand an angle bracket, a token of a type, or the name. -/
theorem afterLeading_cons (s : CallableShape g)
    (htype : ∀ t ∈ s.type, isTypeToken g t = true) (tail : List Token) :
    ∃ t rest, s.afterLeading tail = t :: rest ∧
      (t.isKeyword = true → g.isTypeKeyword t.text = true) ∧
      (∀ c ∈ ['(', ':', '@'], t.isPunct c = false) ∧
      (t.isIdentifier = true → rest.head?.any (·.isPunct ':') = false) := by
  unfold afterLeading
  rcases s.typeParameters_angles with hnil | ⟨o, inner, c, heq, ho, -⟩
  · rw [hnil, List.nil_append]
    cases hcase : s.type with
    | nil =>
        have hword := Token.isWord_of_isIdentifier s.name_identifier
        refine ⟨s.name, s.typeArguments ++ s.group ++ tail, rfl, fun hk => ?_,
          fun c _ => Token.not_isPunct_of_isWord hword c,
          fun _ => s.call_next_not_isPunct (by decide) tail⟩
        rw [Token.not_isKeyword_of_isIdentifier s.name_identifier] at hk
        cases hk
    | cons t rest =>
        rw [hcase] at htype
        have ht := htype t List.mem_cons_self
        refine ⟨t, rest ++ (s.call ++ tail), rfl, fun hk => ?_, fun c hc => ?_, fun _ => ?_⟩
        · rw [Token.isKeyword, beq_iff_eq] at hk
          rwa [isTypeToken, hk] at ht
        · simp only [List.mem_cons, List.not_mem_nil, or_false] at hc
          rcases hc with rfl | rfl | rfl <;> exact isTypeToken_not_isPunct ht (by decide)
        · exact s.types_head_not_isPunct (fun u hu => htype u (List.mem_cons_of_mem _ hu))
            (by decide) tail
  · rw [heq]
    refine ⟨o, _, rfl, fun hk => ?_, fun c hc => ?_, fun hid => ?_⟩
    · rw [Token.not_isKeyword_of_isPunct ho] at hk
      cases hk
    · refine Token.not_isPunct_of_ne ho ?_
      rintro rfl
      revert hc
      decide
    · rw [Token.not_isPunct_of_isIdentifier hid] at ho
      cases ho

/-- **A callable does not begin like a control block.** Of its tokens only the first might be a
control keyword, namely as a modifier. -/
theorem not_startsWithControl (s : CallableShape g)
    (hcontrol : ∀ word, g.isTypeKeyword word = true → g.isControl word = false)
    (htype : ∀ t ∈ s.type, isTypeToken g t = true)
    (hleading : ∀ t rest, s.leading = t :: rest → t.isKeyword = true → g.isControl t.text = true →
      g.isModifier t.text = true) (tail : List Token) :
    startsWithControl g (s.tokens ++ tail) = false := by
  obtain ⟨u, after, hafter, huk, hup, hul⟩ := s.afterLeading_cons htype tail
  rw [tokens_append, hafter]
  cases hcase : s.leading with
  | nil =>
      refine startsWithControl_cons_eq_false hul fun hk hcontrol' => ?_
      rw [hcontrol _ (huk hk)] at hcontrol'
      cases hcontrol'
  | cons t rest =>
      have hreads := s.leading_reads
      rw [hcase] at hreads
      refine startsWithControl_cons_eq_false (fun hid => ?_) fun hk hcontrol' => ⟨?_, ?_⟩
      · exact hreads.next_not_isPunct (Token.isWord_of_isIdentifier hid) (by decide)
          (hup ':' (by decide))
      · exact hleading t rest hcase hk hcontrol'
      · exact hreads.next_not_isPunct (Token.isWord_of_isKeyword hk) (by decide)
          (hup '(' (by decide))

/-- **A callable does not begin like the declaration of a type.** -/
theorem typeHeader_eq_none (s : CallableShape g)
    (hmodifier : ∀ word, g.isTypeKeyword word = true → g.isModifier word = false)
    (hdeclaration : ∀ word, g.isTypeKeyword word = true → g.isTypeDeclaration word = false)
    (htype : s.type = [] ∨ IsType g s.type) (tail : List Token) :
    TypeHeader.ofRun? g (s.tokens ++ tail) = none := by
  have hall : ∀ t ∈ s.type, isTypeToken g t = true := by
    rcases htype with hnil | h
    · simp [hnil]
    · exact h.all
  have hstops : Leading.Stops g (s.afterLeading tail) :=
    stops_append hmodifier s.typeParameters_angles htype (s.call_stops tail)
      (Token.not_isPunct_of_isIdentifier s.name_identifier _)
  obtain ⟨t, rest, hafter, htk, htp, -⟩ := s.afterLeading_cons hall tail
  have hhead : (t.isKeyword && g.isTypeDeclaration t.text) = false := by
    cases hk : t.isKeyword
    · rfl
    · exact hdeclaration _ (htk hk)
  rw [TypeHeader.ofRun?, tokens_append, Leading.ofRun_complete s.leading_reads hstops]
  simp only [List.drop_left, hafter, List.head?_cons, Option.any_some, htp '@' (by decide),
    Bool.false_eq_true, if_false]
  cases rest with
  | nil => rfl
  | cons name rest => simp [hhead]

end CallableShape

end DeclTags
