import DeclTags.Proofs.Groups
import DeclTags.Candidate.Call

set_option autoImplicit false

/-! # Parameters and arguments

Tokens between parentheses are read as the arguments of a call if a literal or the keyword of a
construction stands among them. Two kinds of places do not count: those inside of inner parentheses,
and for literals those in a default value. Both are said here of the tokens in front of the place
(`OutsideParens`, `InDefaultValue`), and with them what the search for a reason answers
(`callReason?_eq_none_iff`).
-/

namespace DeclTags

open DeclTags.Bracket (parens)

/-- No parenthesis that is opened in front is still open. -/
def OutsideParens (before : List Token) : Prop := parens.openings before = parens.closings before

/-- A default value has begun with `=`, outside of inner parentheses, and no comma has ended it. -/
def InDefaultValue (before : List Token) : Prop :=
  ∃ first sign value, before = first ++ sign :: value ∧ sign.isPunct '=' = true ∧
    OutsideParens first ∧
    ∀ u t v, value = u ++ t :: v → t.isPunct ',' = true → ¬OutsideParens (first ++ sign :: u)

variable {before run : List Token} {t : Token} {g : Grammar}

/-! ## One token more in front -/

theorem InDefaultValue.nil : ¬InDefaultValue [] := by
  rintro ⟨first, sign, value, h, -⟩
  cases first <;> cases h

/-- Outside of inner parentheses a default value begins at `=`. -/
theorem inDefaultValue_concat_sign (ho : OutsideParens before) (ht : t.isPunct '=' = true) :
    InDefaultValue (before ++ [t]) :=
  ⟨before, t, [], rfl, ht, ho, fun u _ _ h => by cases u <;> cases h⟩

/-- Outside of inner parentheses a default value ends at a comma. -/
theorem not_inDefaultValue_concat_comma (ho : OutsideParens before) (ht : t.isPunct ',' = true) :
    ¬InDefaultValue (before ++ [t]) := by
  rintro ⟨first, sign, value, h, hsign, -, hvalue⟩
  rcases concat_eq_append_cons_iff.mp h with ⟨-, rfl, -⟩ | ⟨value, rfl, rfl⟩
  · rw [Token.not_isPunct_of_ne ht (by decide)] at hsign
    cases hsign
  · exact hvalue value t [] rfl ht ho

/-- Other tokens, and any token inside of parentheses, neither begin nor end a default value. -/
theorem inDefaultValue_concat_other
    (h : OutsideParens before → t.isPunct '=' = false ∧ t.isPunct ',' = false) :
    InDefaultValue (before ++ [t]) ↔ InDefaultValue before := by
  constructor
  · rintro ⟨first, sign, value, heq, hsign, hfirst, hvalue⟩
    rcases concat_eq_append_cons_iff.mp heq with ⟨rfl, rfl, -⟩ | ⟨value, rfl, rfl⟩
    · rw [(h hfirst).1] at hsign
      cases hsign
    · exact ⟨first, sign, value, rfl, hsign, hfirst,
        fun u c v hv => hvalue u c (v ++ [t]) (by rw [hv]; simp)⟩
  · rintro ⟨first, sign, value, rfl, hsign, hfirst, hvalue⟩
    refine ⟨first, sign, value ++ [t], by simp, hsign, hfirst, fun u c v hv hc => ?_⟩
    rcases concat_eq_append_cons_iff.mp hv with ⟨rfl, rfl, -⟩ | ⟨v, rfl, rfl⟩
    · intro ho
      rw [(h ho).2] at hc
      cases hc
    · exact hvalue u c v rfl hc

/-! ## The search for a reason -/

/-- Nothing at this place tells that arguments of a call stand here. -/
def ReadsAsParameter (g : Grammar) (before : List Token) (t : Token) : Prop :=
  OutsideParens before →
    (t.kind.isLiteral = true → InDefaultValue before) ∧
      ¬(t.isKeyword = true ∧ g.isAnonymousClass t.text = true)

/-- What the search knows of the tokens behind it. -/
structure ArgumentState (before : List Token) (depth : Nat) (inDefault : Bool) : Prop where
  depth_eq : depth + parens.closings before = parens.openings before
  inDefault_iff : inDefault = true ↔ InDefaultValue before

namespace ArgumentState

variable {depth : Nat} {inDefault : Bool}

theorem start : ArgumentState [] 0 false := ⟨rfl, by simp [InDefaultValue.nil]⟩

theorem outsideParens_iff (h : ArgumentState before depth inDefault) :
    OutsideParens before ↔ depth = 0 := by
  have := h.depth_eq
  unfold OutsideParens
  omega

/-- A parenthesis neither begins nor ends a default value. -/
theorem inDefault_paren (h : ArgumentState before depth inDefault) {c : Char}
    (ht : t.isPunct c = true) (hne : c ≠ '=' ∧ c ≠ ',') :
    inDefault = true ↔ InDefaultValue (before ++ [t]) := by
  rw [h.inDefault_iff, inDefaultValue_concat_other fun _ =>
    ⟨Token.not_isPunct_of_ne ht hne.1, Token.not_isPunct_of_ne ht hne.2⟩]

theorem opening (h : ArgumentState before depth inDefault) (ht : t.isPunct '(' = true) :
    ArgumentState (before ++ [t]) (depth + 1) inDefault := by
  have hd := h.depth_eq
  obtain ⟨ho, hc⟩ := parens.counts_cons_opening (by decide) ht []
  refine ⟨?_, h.inDefault_paren ht (by decide)⟩
  rw [Bracket.openings_append, Bracket.closings_append, ho, hc]
  simp only [Bracket.openings_nil, Bracket.closings_nil]
  omega

theorem closing (h : ArgumentState before (depth + 1) inDefault) (ht : t.isPunct ')' = true) :
    ArgumentState (before ++ [t]) depth inDefault := by
  have hd := h.depth_eq
  obtain ⟨ho, hc⟩ := parens.counts_cons_closing (by decide) ht []
  refine ⟨?_, h.inDefault_paren ht (by decide)⟩
  rw [Bracket.openings_append, Bracket.closings_append, ho, hc]
  simp only [Bracket.openings_nil, Bracket.closings_nil]
  omega

/-- A token that is no parenthesis keeps the depth; `inDefault'` is what it says of defaults. -/
theorem other {inDefault' : Bool} (h : ArgumentState before depth inDefault)
    (ho : t.isPunct '(' = false) (hc : t.isPunct ')' = false)
    (hdefault : inDefault' = true ↔ InDefaultValue (before ++ [t])) :
    ArgumentState (before ++ [t]) depth inDefault' := by
  obtain ⟨hopen, hclose⟩ := parens.counts_cons_other ho hc []
  refine ⟨?_, hdefault⟩
  rw [Bracket.openings_append, Bracket.closings_append, hopen, hclose]
  exact h.depth_eq

end ArgumentState

/-- All places of a run, `before` being in front of it, are those of parameters. -/
def AllReadAsParameters (g : Grammar) (before run : List Token) : Prop :=
  ∀ u t v, run = u ++ t :: v → ReadsAsParameter g (before ++ u) t

theorem allReadAsParameters_cons_iff :
    AllReadAsParameters g before (t :: run) ↔
      ReadsAsParameter g before t ∧ AllReadAsParameters g (before ++ [t]) run := by
  constructor
  · intro h
    refine ⟨by simpa using h [] t run rfl, fun u x v hrun => ?_⟩
    rw [List.append_assoc]
    exact h (t :: u) x v (by rw [hrun, List.cons_append])
  · rintro ⟨ht, h⟩ u x v hrun
    cases u with
    | nil =>
        obtain ⟨rfl, rfl⟩ := List.cons.inj hrun
        rwa [List.append_nil]
    | cons y u =>
        obtain ⟨rfl, rfl⟩ := List.cons.inj hrun
        rw [List.append_cons]
        exact h u x v rfl

/-- Punctuation tells nothing. -/
theorem readsAsParameter_of_isPunct {c : Char} (ht : t.isPunct c = true) :
    ReadsAsParameter g before t := by
  have hk := Token.not_isKeyword_of_isPunct ht
  rw [Token.isPunct_iff] at ht
  exact fun _ => ⟨by simp [ht, TokenKind.isLiteral], by simp [hk]⟩

/-- Outside of inner parentheses a token is judged by itself, and a literal by whether a default
value has begun. -/
theorem readsAsParameter_iff {inDefault : Bool} (hout : OutsideParens before)
    (hdefault : inDefault = true ↔ InDefaultValue before) :
    ReadsAsParameter g before t ↔
      (t.kind.isLiteral && !inDefault) = false ∧
        (t.isKeyword && g.isAnonymousClass t.text) = false := by
  simp only [ReadsAsParameter, forall_prop_of_true hout, ← hdefault, ← Bool.not_eq_true,
    Bool.and_eq_true]
  cases inDefault <;> simp

theorem callReasonFrom_eq_none_iff {depth : Nat} {inDefault : Bool}
    (hs : ArgumentState before depth inDefault) (hbal : parens.NeverMore depth run) :
    callReasonFrom g depth inDefault run = none ↔ AllReadAsParameters g before run := by
  induction run generalizing before depth inDefault with
  | nil => simp [callReasonFrom, AllReadAsParameters]
  | cons t run ih =>
      rw [allReadAsParameters_cons_iff, callReasonFrom]
      by_cases ho : t.isPunct '(' = true
      · rw [if_pos ho, ih (hs.opening ho) ((Bracket.neverMore_cons_opening (by decide) ho).mp hbal),
          and_iff_right (readsAsParameter_of_isPunct ho)]
      rw [if_neg ho]
      by_cases hc : t.isPunct ')' = true
      · rw [if_pos hc]
        cases depth with
        | zero => exact absurd hbal (Bracket.not_neverMore_zero_cons (by decide) hc)
        | succ depth =>
            rw [Nat.add_sub_cancel, ih (hs.closing hc)
              ((Bracket.neverMore_cons_closing (by decide) hc).mp hbal),
              and_iff_right (readsAsParameter_of_isPunct hc)]
      rw [if_neg hc]
      rw [Bool.not_eq_true] at ho hc
      have hrest := (Bracket.neverMore_cons_other ho hc).mp hbal
      by_cases hd : 0 < depth
      · -- inside of parentheses every token is passed over
        have hnot : ¬OutsideParens before := by
          rw [hs.outsideParens_iff]
          omega
        have hother := inDefaultValue_concat_other (t := t) fun h => absurd h hnot
        have hread : ReadsAsParameter g before t := fun h => absurd h hnot
        rw [if_pos hd, ih (hs.other ho hc (hs.inDefault_iff.trans hother.symm)) hrest,
          and_iff_right hread]
      rw [if_neg hd]
      have hout : OutsideParens before := hs.outsideParens_iff.mpr (by omega)
      by_cases hsign : t.isPunct '=' = true
      · have hdefault := inDefaultValue_concat_sign hout hsign
        rw [if_pos hsign, ih (hs.other ho hc (by simp [hdefault])) hrest,
          and_iff_right (readsAsParameter_of_isPunct hsign)]
      rw [if_neg hsign]
      by_cases hcomma : t.isPunct ',' = true
      · have hdefault := not_inDefaultValue_concat_comma hout hcomma
        rw [if_pos hcomma, ih (hs.other ho hc (by simp [hdefault])) hrest,
          and_iff_right (readsAsParameter_of_isPunct hcomma)]
      rw [if_neg hcomma]
      rw [Bool.not_eq_true] at hsign hcomma
      -- what is left is the token itself
      have hother := inDefaultValue_concat_other (t := t) fun _ : OutsideParens before =>
        ⟨hsign, hcomma⟩
      rw [← ih (hs.other ho hc (hs.inDefault_iff.trans hother.symm)) hrest,
        readsAsParameter_iff hout hs.inDefault_iff]
      cases t.kind.isLiteral && !inDefault <;> cases t.isKeyword && g.isAnonymousClass t.text <;>
        simp

/-- **Balanced tokens give no reason to read them as arguments exactly where outside of inner
parentheses they hold no literal, unless in a default value, and no keyword of a construction.** -/
theorem callReason?_eq_none_iff (h : parens.Balanced run) :
    callReason? g run = none ↔ ∀ u t v, run = u ++ t :: v → ReadsAsParameter g u t :=
  callReasonFrom_eq_none_iff ArgumentState.start h.never_more

end DeclTags
