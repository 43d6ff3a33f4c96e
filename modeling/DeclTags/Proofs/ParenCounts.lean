import DeclTags.Proofs.Blocks
import DeclTags.Proofs.Candidates

set_option autoImplicit false

/-! # Counting parentheses

How many parentheses are open behind some tokens, said without the recognizer: braces and their
partners are left out with all that stands between them (`looseTokens`), a `(` counts one up, a `)`
one down but not below zero, and a `}` without a partner begins anew (`parenCount`). Inside of open
braces the count is that of the tokens behind the last of them (`behindBrace`).

The candidate of a scan stands in just so many parentheses, whatever was suspended and taken up
again on the way (`Scan.run_parenDepth`).
-/

namespace DeclTags

/-! ## Tokens outside of blocks -/

/-- The position is that of a brace with a partner, or lies between one and its partner. -/
def InBlock (ts : List Token) (k : Nat) : Prop := ∃ i j, Partners ts i j ∧ i ≤ k ∧ k ≤ j

instance (ts : List Token) (k : Nat) : Decidable (InBlock ts k) :=
  decidable_of_iff
    (∃ i ∈ List.range ts.length, ∃ j ∈ List.range ts.length, Partners ts i j ∧ i ≤ k ∧ k ≤ j) <| by
    constructor
    · rintro ⟨i, -, j, -, h⟩
      exact ⟨i, j, h⟩
    · rintro ⟨i, j, h⟩
      have hlt := h.1.lt_length
      exact ⟨i, List.mem_range.mpr (by omega), j, List.mem_range.mpr hlt.2, h⟩

/-- The tokens that stand in no block. -/
def looseTokens (ts : List Token) : List Token :=
  (ts.zipIdx.filter fun p => ¬InBlock ts p.2).map (·.1)

/-- A token that ends no block is loose, and changes nothing for those before it. -/
theorem looseTokens_concat {ts : List Token} {t : Token}
    (h : ∀ i, ¬Partners (ts ++ [t]) i ts.length) :
    looseTokens (ts ++ [t]) = looseTokens ts ++ [t] := by
  have hlast : ¬InBlock (ts ++ [t]) ts.length := by
    rintro ⟨i, j, hp, -, hle⟩
    have hj := hp.lt_length.2
    rw [List.length_append, List.length_singleton] at hj
    exact h i (Nat.le_antisymm hle (Nat.le_of_lt_succ hj) ▸ hp)
  have hbefore : ∀ k, k < ts.length → (InBlock (ts ++ [t]) k ↔ InBlock ts k) := by
    intro k _
    constructor
    · rintro ⟨i, j, hp, hk⟩
      have hj := hp.lt_length.2
      rw [List.length_append, List.length_singleton] at hj
      rcases Nat.lt_or_eq_of_le (Nat.le_of_lt_succ hj) with hlt | rfl
      · exact ⟨i, j, (partners_append _ hlt).mp hp, hk⟩
      · exact absurd hp (h i)
    · rintro ⟨i, j, hp, hk⟩
      exact ⟨i, j, (partners_append _ hp.lt_length.2).mpr hp, hk⟩
  have hcongr : (ts.zipIdx.filter fun p => ¬InBlock (ts ++ [t]) p.2) =
      ts.zipIdx.filter fun p => ¬InBlock ts p.2 := by
    refine List.filter_congr fun p hp => ?_
    simp only [hbefore p.2 (List.snd_lt_of_mem_zipIdx hp)]
  rw [looseTokens, zipIdx_concat, List.filter_append, hcongr, List.map_append, looseTokens]
  simp [hlast]

theorem looseTokens_concat_plain (ts : List Token) {t : Token} (ht : t.isBrace = false) :
    looseTokens (ts ++ [t]) = looseTokens ts ++ [t] := by
  refine looseTokens_concat fun i h => ?_
  have hclosing := (partners_concat_iff.mp h).1
  rw [(Token.not_isPunct_of_not_isBrace ht).2] at hclosing
  cases hclosing

/-- A `}` without a partner is loose. -/
theorem looseTokens_concat_stray {ts : List Token} (hu : unclosed ts = []) (c : Token) :
    looseTokens (ts ++ [c]) = looseTokens ts ++ [c] := by
  refine looseTokens_concat fun i h => ?_
  have hopen := (partners_concat_iff.mp h).2
  rw [unclosed_eq_nil_iff.mp hu] at hopen
  cases hopen

/-- Nothing in a block is loose, and the block changes nothing for what stands before it. -/
theorem looseTokens_append_block (ts : List Token) {o c : Token} {inner : List Token}
    (ho : o.isPunct '{' = true) (hc : c.isPunct '}' = true) (hi : Balanced inner) :
    looseTokens (ts ++ (o :: inner ++ [c])) = looseTokens ts := by
  have hblock : Partners (ts ++ (o :: inner ++ [c])) ts.length (ts ++ o :: inner).length :=
    ⟨ts, o, inner, c, [], by simp, ho, hc, hi, rfl, rfl⟩
  have hlen : (ts ++ (o :: inner ++ [c])).length = (ts ++ o :: inner).length + 1 := by
    rw [← List.append_assoc, List.length_append, List.length_singleton]
  have hbefore : ∀ k, k < ts.length → (InBlock (ts ++ (o :: inner ++ [c])) k ↔ InBlock ts k) := by
    intro k hk
    constructor
    · rintro ⟨i, j, hp, hik, hkj⟩
      rcases Nat.lt_or_ge j ts.length with hj | hj
      · exact ⟨i, j, (partners_append _ hj).mp hp, hik, hkj⟩
      · -- a block from before to behind `o` would have to hold the whole block
        have hne : j ≠ ts.length := by
          rintro rfl
          have hclosing := (partners_iff.mp hp).1
          simp [Token.not_isPunct_of_ne ho] at hclosing
        have hlt := hp.nested hblock ⟨Nat.lt_of_le_of_lt hik hk, by omega⟩
        have := hp.lt_length.2
        omega
    · rintro ⟨i, j, hp, hk⟩
      exact ⟨i, j, (partners_append _ hp.lt_length.2).mpr hp, hk⟩
  have hcongr : (ts.zipIdx.filter fun p => ¬InBlock (ts ++ (o :: inner ++ [c])) p.2) =
      ts.zipIdx.filter fun p => ¬InBlock ts p.2 := by
    refine List.filter_congr fun p hp => ?_
    simp only [hbefore p.2 (List.snd_lt_of_mem_zipIdx hp)]
  have hnil : (((o :: inner ++ [c]).zipIdx ts.length).filter fun p =>
      ¬InBlock (ts ++ (o :: inner ++ [c])) p.2) = [] := by
    rw [List.filter_eq_nil_iff]
    intro p hp hno
    have hge := List.le_snd_of_mem_zipIdx hp
    have hlt := List.snd_lt_add_of_mem_zipIdx hp
    refine of_decide_eq_true hno ⟨_, _, hblock, hge, ?_⟩
    simp only [List.length_append, List.length_cons, List.length_nil] at hlt ⊢
    omega
  rw [looseTokens, List.zipIdx_append, Nat.zero_add, List.filter_append, hcongr, hnil,
    List.append_nil, looseTokens]

/-! ## The count -/

/-- The count behind a loose token. -/
def countAfter (n : Nat) (t : Token) : Nat :=
  if t.isPunct '}' then 0 else Candidate.depthAfter n t

/-- The number of parentheses that are open behind the tokens. -/
def parenCount (ts : List Token) : Nat := (looseTokens ts).foldl countAfter 0

theorem parenCount_concat_plain (ts : List Token) {t : Token} (ht : t.isBrace = false) :
    parenCount (ts ++ [t]) = Candidate.depthAfter (parenCount ts) t := by
  rw [parenCount, looseTokens_concat_plain ts ht, List.foldl_concat, countAfter,
    (Token.not_isPunct_of_not_isBrace ht).2, if_neg Bool.false_ne_true, parenCount]

theorem parenCount_concat_stray {ts : List Token} (hu : unclosed ts = []) {c : Token}
    (hc : c.isPunct '}' = true) : parenCount (ts ++ [c]) = 0 := by
  rw [parenCount, looseTokens_concat_stray hu, List.foldl_concat, countAfter, if_pos hc]

theorem parenCount_append_block (ts : List Token) {o c : Token} {inner : List Token}
    (ho : o.isPunct '{' = true) (hc : c.isPunct '}' = true) (hi : Balanced inner) :
    parenCount (ts ++ (o :: inner ++ [c])) = parenCount ts := by
  rw [parenCount, looseTokens_append_block ts ho hc hi, parenCount]

/-! ## Inside of open braces -/

/-- The tokens behind the last `{` without a partner, or all of them. -/
def behindBrace (ts : List Token) : List Token :=
  match (unclosed ts).getLast? with
  | some brace => ts.drop (brace.2 + 1)
  | none => ts

theorem behindBrace_eq_self {ts : List Token} (h : unclosed ts = []) : behindBrace ts = ts := by
  rw [behindBrace, h]
  rfl

theorem behindBrace_concat_opening (ts : List Token) {o : Token} (ho : o.isPunct '{' = true) :
    behindBrace (ts ++ [o]) = [] := by
  rw [behindBrace, unclosed_concat_opening _ ho, List.getLast?_concat]
  simp

/-- Tokens that leave the same braces open are added at the end. -/
theorem behindBrace_append {ts us : List Token} (h : unclosed (ts ++ us) = unclosed ts) :
    behindBrace (ts ++ us) = behindBrace ts ++ us := by
  rw [behindBrace, h, behindBrace]
  cases hlast : (unclosed ts).getLast? with
  | none => rfl
  | some brace =>
      have hmem : brace ∈ unclosed ts := List.mem_of_getLast? hlast
      have hlt : brace.2 < ts.length :=
        List.snd_lt_of_mem_zipIdx (List.mem_of_mem_filter hmem)
      exact List.drop_append_of_le_length hlt

namespace Recognizer

/-- A candidate that is dropped over a block stood in no parentheses. -/
theorem afterBlock_parenDepth (r : Recognizer) :
    r.afterBlock.candidate.parenDepth = r.candidate.parenDepth := by
  unfold afterBlock
  split
  · rfl
  · next hp => exact (Nat.eq_zero_of_not_pos hp).symm

end Recognizer

namespace Scan

variable {g : Grammar} {source : String}

/-- A token that is no brace counts for the candidate, even if it ends one: where a semicolon does
so, no parenthesis is open. -/
theorem feed_parenDepth_of_not_isBrace {s : Scan} {t : Token} (ht : t.isBrace = false) :
    (s.feed g source t).recognizer.candidate.parenDepth =
      Candidate.depthAfter s.recognizer.candidate.parenDepth t := by
  cases hs : t.isPunct ';' with
  | false =>
      have hp : t.isStructural = false := by simp [Token.isStructural, ht, hs]
      rw [feed_recognizer_of_plain hp, Recognizer.observe_parenDepth]
  | true =>
      rw [feed_recognizer_of_semicolon hs, Recognizer.semicolon]
      split
      · exact Recognizer.observe_parenDepth
      · next hparen =>
        have hzero : s.recognizer.candidate.parenDepth = 0 := by
          simpa [Recognizer.inParenGroup] using hparen
        simp [hzero, Candidate.depthAfter, Token.not_isPunct_of_ne hs, Recognizer.boundary]

/-- **The candidate stands in as many parentheses as are open in its block.** -/
theorem run_parenDepth (g : Grammar) (source : String) (ts : List Token) :
    (run g source ts {}).recognizer.candidate.parenDepth = parenCount (behindBrace ts) := by
  induction ts using brace_induction with
  | nil => rfl
  | opening ts o ho _ =>
      rw [run_append, run_cons, run_nil, feed_recognizer_of_opening ho,
        behindBrace_concat_opening ts ho]
      rfl
  | plain ts t ht ih =>
      rw [run_append, run_cons, run_nil, feed_parenDepth_of_not_isBrace ht, ih ts (Nat.le_refl _),
        behindBrace_append (unclosed_concat_plain ts ht), parenCount_concat_plain _ ht]
  | closing ts c hc ih =>
      rcases run_closing_cases g source ts hc with ⟨hu, hr⟩ | ⟨before, o, inner, rfl, ho, hb, hr⟩
      · have hu' : unclosed (ts ++ [c]) = [] := by rw [unclosed_concat_closing _ hc, hu]; rfl
        rw [hr, behindBrace_eq_self hu', parenCount_concat_stray hu hc]
        rfl
      · rw [hr, List.append_assoc, behindBrace_append (unclosed_append_block before ho hc hb),
          parenCount_append_block _ ho hc hb, ← ih before (by simp)]
        exact Recognizer.afterBlock_parenDepth _

end Scan

end DeclTags
