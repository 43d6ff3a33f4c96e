import DeclTags.Proofs.Feed

set_option autoImplicit false

/-! # Headers and the tokens they are read from

A header is read off a run of tokens by cutting pieces off its two ends, so its name and its group
of parentheses consist of tokens of the run (`CallableHeader.ofRun?_mem`, `TypeHeader.ofRun?_mem`).
Two consequences for decisions: the symbol that a candidate is decided to be has its span from a
token of the candidate (`Candidate.atBrace_span`), and of the source text a decision sees no more
than the slices between those tokens (`Candidate.atBrace_congr`).
-/

namespace DeclTags

/-! ## Pieces of a run -/

theorem Bracket.splitGroup?_append {b : Bracket} {run group rest : List Token}
    (h : b.splitGroup? run = some (group, rest)) : group ++ rest = run := by
  unfold splitGroup? at h
  split at h
  · obtain ⟨n, -, hn⟩ := Option.map_eq_some_iff.mp h
    rw [List.splitAt_eq, Prod.mk.injEq] at hn
    rw [← hn.1, ← hn.2, List.take_append_drop]
  · cases h

theorem CallShape.withoutTypeArguments?_suffix {back rest : List Token}
    (h : withoutTypeArguments? back = some rest) : rest <:+ back := by
  unfold withoutTypeArguments? at h
  split at h
  · obtain ⟨⟨group, rest'⟩, hs, rfl⟩ := Option.map_eq_some_iff.mp h
    exact ⟨group, Bracket.splitGroup?_append hs⟩
  · cases h
    exact List.suffix_refl _

/-- Name, group and what stands before them are tokens of the run. -/
theorem CallShape.ofBack?_subset {back : List Token} {s : CallShape} (h : ofBack? back = some s) :
    s.name :: s.before ++ s.group ⊆ back := by
  simp only [ofBack?, Option.bind_eq_bind, Option.bind_eq_some_iff] at h
  obtain ⟨⟨group, rest⟩, hg, rest', hr, h⟩ := h
  have hback := Bracket.splitGroup?_append hg
  have hsuffix := withoutTypeArguments?_suffix hr
  cases rest' with
  | nil => cases h
  | cons name before =>
      have h : (if name.isIdentifier then some ⟨before, name, group.reverse⟩ else none) =
          some s := h
      split at h
      · cases h
        intro t ht
        rw [← hback]
        rcases List.mem_append.mp ht with ht | ht
        · exact List.mem_append_right _ (hsuffix.subset ht)
        · exact List.mem_append_left _ (List.mem_reverse.mp ht)
      · cases h

theorem cutAfterGroupFrom_append {starts : List Token → Bool} {before : List Token} {depth : Nat}
    {closed : Bool} {run first second : List Token}
    (h : cutAfterGroupFrom starts before depth closed run = some (first, second)) :
    first ++ second = before.reverse ++ run := by
  induction run generalizing before depth closed with
  | nil => cases h
  | cons t run ih =>
      -- a token that is passed over moves from the run to what is before the cut
      have hcons : before.reverse ++ t :: run = (t :: before).reverse ++ run := by simp
      rw [cutAfterGroupFrom] at h
      split at h
      · rw [hcons, ih h]
      · split at h
        · rw [hcons, ih h]
        · split at h
          · cases h
            rfl
          · rw [hcons, ih h]

theorem cutAfterGroup?_append {starts : List Token → Bool} {run first second : List Token}
    (h : cutAfterGroup? starts run = some (first, second)) : first ++ second = run :=
  cutAfterGroupFrom_append h

theorem withoutTrailingClause?_initial {g : Grammar} {run rest : List Token}
    (h : withoutTrailingClause? g run = some rest) : rest <+: run := by
  unfold withoutTrailingClause? at h
  split at h
  · cases h
    exact List.prefix_refl _
  · next before clause hc =>
    split at h
    · cases h
      exact ⟨clause, cutAfterGroup?_append hc⟩
    · cases h

theorem beforeInitializer?_suffix {g : Grammar} {back before : List Token}
    (h : beforeInitializer? g back = some before) : before <:+ back := by
  simp only [beforeInitializer?, Option.bind_eq_bind, Option.bind_eq_some_iff] at h
  obtain ⟨⟨group, rest⟩, hg, h⟩ := h
  have hback := Bracket.splitGroup?_append hg
  simp only at h
  split at h
  · next keyword colon before' =>
    split at h
    · cases h
      exact ⟨group ++ [keyword, colon], by simpa using hback⟩
    · cases h
  · cases h

theorem memberTail?_initial {g : Grammar} {run before : List Token} {tail : MemberTail}
    (h : memberTail? g run = some (before, tail)) : before <+: run := by
  simp only [memberTail?, Option.bind_eq_bind, Option.bind_eq_some_iff] at h
  obtain ⟨⟨first, second⟩, hc, ⟨tail', n⟩, -, h⟩ := h
  split at h
  · cases h
    exact ⟨second, cutAfterGroup?_append hc⟩
  · cases h

/-! ## Headers -/

/-- Name and group of a callable's header are tokens of the run. -/
theorem CallableHeader.ofRun?_mem {g : Grammar} {withBody : Bool} {run : List Token}
    {h : CallableHeader} (hh : ofRun? g withBody run = some h) :
    h.name ∈ run ∧ h.group ⊆ run := by
  simp only [ofRun?, Option.bind_eq_bind, Option.bind_eq_some_iff] at hh
  obtain ⟨rest, hrest, shape, hshape, type, -, hh⟩ := hh
  cases hh
  -- the shape is read off the run without its clause and without its chain
  have hchain : ((if withBody then beforeInitializer? g rest.reverse else none).getD
      rest.reverse) ⊆ rest.reverse := by
    cases hc : (if withBody then beforeInitializer? g rest.reverse else none) with
    | none => exact List.Subset.refl _
    | some before =>
        split at hc
        · exact (beforeInitializer?_suffix hc).subset
        · cases hc
  have hsub : shape.name :: shape.before ++ shape.group ⊆ run := fun t ht =>
    (withoutTrailingClause?_initial hrest).subset
      (List.mem_reverse.mp (hchain (CallShape.ofBack?_subset hshape ht)))
  exact ⟨hsub List.mem_cons_self, fun t ht => hsub (List.mem_append_right _ ht)⟩

/-- Name and rest of a type's header are tokens of the run. -/
theorem TypeHeader.ofRun?_mem {g : Grammar} {run : List Token} {h : TypeHeader}
    (hh : ofRun? g run = some h) : h.name ∈ run ∧ h.rest ⊆ run := by
  simp only [ofRun?] at hh
  split at hh
  · next keyword name rest heq =>
    have hsub : keyword :: name :: rest ⊆ run := by
      rw [← heq]
      split
      · exact ((List.tail_sublist _).trans (List.drop_sublist _ _)).subset
      · exact (List.drop_sublist _ _).subset
    split at hh
    · cases hh
      exact ⟨hsub (by simp), fun t ht => hsub (by simp [ht])⟩
    · cases hh
  · cases hh

/-! ## The span of what is decided -/

namespace Candidate

variable {g : Grammar} {source : String} {tracker : ScopeTracker} {c : Candidate}
  {run : List Token} {x : Symbol}

theorem typeDecision?_span {d : Decision} (h : c.typeDecision? g source tracker run = some d)
    (hx : d.symbol? = some x) : ∃ n ∈ run, x.span = .ofToken n := by
  obtain ⟨header, hh, rfl⟩ := Option.map_eq_some_iff.mp h
  simp only [Decision.symbol?] at hx
  split at hx
  · cases hx
    exact ⟨header.name, (TypeHeader.ofRun?_mem hh).1, rfl⟩
  · cases hx

theorem callableDecision_span {withBody : Bool}
    (hx : (c.callableDecision g source tracker withBody run).symbol? = some x) :
    ∃ n ∈ run, x.span = .ofToken n := by
  unfold callableDecision at hx
  split at hx
  · cases hx
  · next header hh =>
    split at hx
    · cases hx
    · split at hx
      · cases hx
      · cases hx
        exact ⟨header.name, (CallableHeader.ofRun?_mem hh).1, rfl⟩

/-- What a candidate is decided to declare at a brace has its name among the candidate's tokens, and
stands in no parentheses. -/
theorem atBrace_span (hx : (c.atBrace g source tracker).symbol? = some x) :
    c.parenDepth = 0 ∧ ∃ n ∈ c.tokens, x.span = .ofToken n := by
  obtain ⟨-, hdepth, h | h⟩ := atBrace_symbol?_cases hx
  · exact ⟨hdepth, typeDecision?_span h hx⟩
  · exact ⟨hdepth, callableDecision_span h⟩

theorem member_initial (g : Grammar) (c : Candidate) : (c.member g).1 <+: c.tokens := by
  unfold member
  simp only
  split
  · next h => exact memberTail?_initial h
  · next h => exact memberTail?_initial h
  · exact List.prefix_refl _

/-- What a candidate is decided to declare at a semicolon has its name among the candidate's
tokens. -/
theorem atSemicolon?_span {d : Decision} (h : c.atSemicolon? g source tracker = some d)
    (hx : d.symbol? = some x) : ∃ n ∈ c.tokens, x.span = .ofToken n := by
  obtain ⟨-, -, rfl⟩ := atSemicolon?_cases h
  obtain ⟨n, hn, hspan⟩ := callableDecision_span hx
  exact ⟨n, (c.member_initial g).subset hn, hspan⟩

end Candidate

/-! ## What a decision sees of the source -/

/-- The two texts agree between any two of the tokens. -/
def SameSlices (source source' : String) (run : List Token) : Prop :=
  ∀ o ∈ run, ∀ c ∈ run, Text.slice o.stop c.start source = Text.slice o.stop c.start source'

theorem SameSlices.mono {source source' : String} {run part : List Token}
    (h : SameSlices source source' run) (hp : part ⊆ run) : SameSlices source source' part :=
  fun o ho c hc => h o (hp ho) c (hp hc)

theorem groupText_congr {source source' : String} {group : List Token}
    (h : SameSlices source source' group) : groupText source group = groupText source' group := by
  unfold groupText
  split
  · next o c ho hc => exact h o (List.mem_of_head? ho) c (List.mem_of_getLast? hc)
  · rfl

theorem TypeHeader.afterTypeParameters_subset (rest : List Token) :
    afterTypeParameters rest ⊆ rest := by
  unfold afterTypeParameters
  split
  · cases hg : Bracket.angles.splitGroup? rest with
    | none => exact List.nil_subset _
    | some pair =>
        exact fun t ht => Bracket.splitGroup?_append hg ▸ List.mem_append_right _ ht
  · exact List.Subset.refl _

theorem TypeHeader.componentText_congr {source source' : String} {h : TypeHeader}
    (hs : SameSlices source source' h.rest) :
    h.componentText source = h.componentText source' := by
  unfold componentText
  split
  · next group rest hg =>
    have hgroup : group ⊆ h.rest := fun t ht =>
      afterTypeParameters_subset h.rest (Bracket.splitGroup?_append hg ▸ List.mem_append_left _ ht)
    exact groupText_congr (hs.mono hgroup)
  · rfl

namespace Candidate

variable {g : Grammar} {source source' : String} {tracker : ScopeTracker} {c : Candidate}
  {run : List Token}

theorem typeDecision?_congr (h : SameSlices source source' run) :
    c.typeDecision? g source tracker run = c.typeDecision? g source' tracker run := by
  unfold typeDecision?
  cases hh : TypeHeader.ofRun? g run with
  | none => rfl
  | some header =>
      have htext := TypeHeader.componentText_congr (h.mono (TypeHeader.ofRun?_mem hh).2)
      simp only [Option.map_some, htext]

theorem callableDecision_congr {withBody : Bool} (h : SameSlices source source' run) :
    c.callableDecision g source tracker withBody run =
      c.callableDecision g source' tracker withBody run := by
  unfold callableDecision
  cases hh : CallableHeader.ofRun? g withBody run with
  | none => rfl
  | some header =>
      have htext := groupText_congr (h.mono (CallableHeader.ofRun?_mem hh).2)
      simp only [htext]

/-- At a brace no more is seen of the text than what stands between the candidate's tokens. -/
theorem atBrace_congr (h : SameSlices source source' c.tokens) :
    c.atBrace g source tracker = c.atBrace g source' tracker := by
  simp only [atBrace, typeDecision?_congr h, callableDecision_congr h]

/-- At a semicolon no more is seen of the text than what stands between the candidate's tokens. -/
theorem atSemicolon?_congr (h : SameSlices source source' c.tokens) :
    c.atSemicolon? g source tracker = c.atSemicolon? g source' tracker := by
  simp only [atSemicolon?, callableDecision_congr (h.mono (c.member_initial g).subset)]

end Candidate

end DeclTags
