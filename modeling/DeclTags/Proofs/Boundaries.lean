import DeclTags.Proofs.ParenCounts
import DeclTags.Proofs.Unbroken

set_option autoImplicit false

/-! # The boundary before some tokens

A brace or semicolon ends a declaration unless it stands in parentheses of its own, alone or in a
block. So some tokens begin behind the last brace or semicolon behind which no such thing is to be
found (`BeginsBehind`): the start does not end inside of parentheses, and in the part behind it
semicolons and blocks stand in parentheses that the part itself opens. There is only one such start
(`BeginsBehind.unique`).
-/

namespace DeclTags

open Candidate (openParens)

/-! ## Balanced words from their end -/

namespace Balanced

theorem of_concat_plain {ts : List Token} {t : Token} (h : Balanced (ts ++ [t]))
    (ht : t.isBrace = false) : Balanced ts := by
  have hc := (Token.not_isPunct_of_not_isBrace ht).2
  rw [balanced_iff, unclosed_concat_plain ts ht, stray, closings_concat_of_not_closing _ _ hc] at h
  exact balanced_iff.mpr h

/-- A balanced word that ends with a `}` ends with a block. -/
theorem exists_block {ts : List Token} {c : Token} (h : Balanced (ts ++ [c]))
    (hc : c.isPunct '}' = true) :
    ∃ before o inner, ts = before ++ o :: inner ∧ o.isPunct '{' = true ∧ Balanced inner ∧
      Balanced before := by
  obtain ⟨hopen, hstray⟩ := balanced_iff.mp h
  rw [unclosed_concat_closing ts hc] at hopen
  rw [stray, closings_concat_closing _ _ hc, List.append_eq_nil_iff] at hstray
  -- as the `}` is not stray, some brace is open before it
  have hne : openStack ts ≠ [] := by
    intro hnil
    rw [← unclosed_eq_nil_iff] at hnil
    simp [hnil] at hstray
  obtain ⟨i, rest, hstack⟩ := List.exists_cons_of_ne_nil hne
  obtain ⟨before, o, inner, rfl, ho, hinner, -, -⟩ := exists_of_openStack_eq_cons hstack
  refine ⟨before, o, inner, rfl, ho, hinner, balanced_iff.mpr ⟨?_, ?_⟩⟩
  · rwa [unclosed_of_balanced before ho hinner, List.dropLast_concat] at hopen
  · rw [closings_append, List.append_eq_nil_iff] at hstray
    exact hstray.1.1

end Balanced

/-- The last block of some tokens is where it is: what is balanced inside of it is. -/
theorem eq_of_append_block_eq {before before' inner inner' : List Token} {o o' : Token}
    (ho : o.isPunct '{' = true) (ho' : o'.isPunct '{' = true) (hi : Balanced inner)
    (hi' : Balanced inner') (h : before ++ o :: inner = before' ++ o' :: inner') :
    before = before' := by
  have hstack := openStack_of_balanced before ho hi
  rw [h, openStack_of_balanced before' ho' hi'] at hstack
  exact (List.append_inj h (List.cons.inj hstack).1.symm).1

/-! ## Parentheses in an unbroken part -/

namespace Unbroken

/-- Behind a start that does not end inside of parentheses those are open that the part opens. -/
theorem parenCount_append {start part : List Token} (h : Unbroken part)
    (hstart : parenCount (behindBrace start) = 0) :
    parenCount (behindBrace (start ++ part)) = openParens (outsideBlocks part) := by
  induction h with
  | nil =>
      rw [List.append_nil, hstart]
      rfl
  | @concat seg t h hbrace _ ih =>
      rw [← List.append_assoc, behindBrace_append (unclosed_concat_plain _ hbrace),
        parenCount_concat_plain _ hbrace, ih, outsideBlocks_concat h.balanced hbrace,
        Candidate.openParens_concat]
  | @block seg inner o c h ho hc hi _ ih =>
      rw [← List.append_assoc, behindBrace_append (Scan.unclosed_append_block _ ho hc hi),
        parenCount_append_block _ ho hc hi, ih, outsideBlocks_concat_block h.balanced ho hc hi]

/-- A brace or semicolon of an unbroken part, if the tokens behind it are balanced, stands where a
parenthesis is open. -/
theorem open_behind {part x y : List Token} {b : Token} (h : Unbroken part)
    (hpart : part = x ++ b :: y) (hb : b.isStructural = true) (hy : Balanced y) :
    Unbroken (x ++ [b]) ∧ 0 < openParens (outsideBlocks (x ++ [b])) := by
  induction h generalizing y with
  | nil => cases x <;> cases hpart
  | @concat seg t h hbrace hsemicolon ih =>
      rcases List.eq_nil_or_concat' y with rfl | ⟨y, u, rfl⟩
      · obtain ⟨rfl, hlast⟩ := List.append_inj' hpart rfl
        obtain rfl := (List.cons.inj hlast).1
        have hs : t.isPunct ';' = true := by simpa [Token.isStructural, hbrace] using hb
        refine ⟨h.concat hbrace hsemicolon, ?_⟩
        rw [outsideBlocks_concat h.balanced hbrace, Candidate.openParens_concat,
          Candidate.depthAfter, Token.not_isPunct_of_ne hs (show ';' ≠ '(' by decide),
          Token.not_isPunct_of_ne hs (show ';' ≠ ')' by decide)]
        exact hsemicolon hs
      · rw [← List.cons_append, ← List.append_assoc] at hpart
        obtain ⟨rfl, hlast⟩ := List.append_inj' hpart rfl
        obtain rfl := List.singleton_inj.mp hlast
        exact ih rfl (hy.of_concat_plain hbrace)
  | @block seg inner o c h ho hc hi hopen ih =>
      rcases List.eq_nil_or_concat' y with rfl | ⟨y, u, rfl⟩
      · rw [← hpart, outsideBlocks_concat_block h.balanced ho hc hi]
        exact ⟨h.block ho hc hi hopen, hopen⟩
      · rw [← List.cons_append, ← List.append_assoc, ← List.append_assoc] at hpart
        obtain ⟨hinit, hlast⟩ := List.append_inj' hpart rfl
        obtain rfl := List.singleton_inj.mp hlast
        -- what is behind `b` ends with this very block
        obtain ⟨before, o', inner', rfl, ho', hi', hbefore⟩ := hy.exists_block hc
        rw [← List.cons_append, ← List.append_assoc] at hinit
        exact ih (eq_of_append_block_eq ho ho' hi hi' hinit) hbefore

end Unbroken

/-! ## The boundary -/

/-- The tokens are `start`, which is empty or ends with a boundary, and `part`, in which there is
none. -/
structure BeginsBehind (ts start part : List Token) : Prop where
  split : ts = start ++ part
  boundary : EndsAtBoundary start
  /-- The start does not end inside of parentheses. -/
  outside : parenCount (behindBrace start) = 0
  unbroken : Unbroken part

namespace BeginsBehind

variable {ts start start' part part' : List Token}

/-- Of two starts the longer one would end inside of parentheses. -/
theorem not_longer (h : BeginsBehind ts start part) (h' : BeginsBehind ts start' part')
    {x : List Token} (hx : start' = start ++ x) : x = [] := by
  rcases List.eq_nil_or_concat' x with hnil | ⟨x, b, rfl⟩
  · exact hnil
  have hb : b.isStructural = true := by
    rcases h'.boundary with hnil | ⟨init, b', hinit, hb'⟩
    · rw [hx] at hnil
      simp at hnil
    · rw [hx, ← List.append_assoc] at hinit
      obtain ⟨-, hlast⟩ := List.append_inj' hinit rfl
      rwa [List.singleton_inj.mp hlast]
  have hpart : part = x ++ b :: part' := by
    have hsplit := h.split.symm.trans h'.split
    rw [hx, List.append_assoc] at hsplit
    rw [List.append_cancel_left hsplit]
    simp
  obtain ⟨hunbroken, hopen⟩ := h.unbroken.open_behind hpart hb h'.unbroken.balanced
  have hcount := hunbroken.parenCount_append h.outside
  rw [← hx, h'.outside] at hcount
  exact absurd hcount (Nat.ne_of_lt hopen)

/-- **There is one boundary only** before some tokens. -/
theorem unique (h : BeginsBehind ts start part) (h' : BeginsBehind ts start' part') :
    start = start' ∧ part = part' := by
  have hprefix : start <+: ts := ⟨part, h.split.symm⟩
  have hprefix' : start' <+: ts := ⟨part', h'.split.symm⟩
  have hstart : start = start' := by
    rcases List.prefix_or_prefix_of_prefix hprefix hprefix' with ⟨x, hx⟩ | ⟨x, hx⟩
    · rw [← hx, h.not_longer h' hx.symm, List.append_nil]
    · rw [← hx, h'.not_longer h hx.symm, List.append_nil]
  refine ⟨hstart, ?_⟩
  have hsplit := h.split.symm.trans h'.split
  rw [hstart] at hsplit
  exact List.append_cancel_left hsplit

end BeginsBehind

end DeclTags
