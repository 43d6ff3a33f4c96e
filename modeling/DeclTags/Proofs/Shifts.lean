import DeclTags.Proofs.Cuts
import DeclTags.Proofs.Progress

set_option autoImplicit false

/-! # Tokens of a text behind another

A text that stands behind another has the tokens that it has by itself, in other places
(`Lexer.tokens_behind`): the offsets count the bytes in front of it, the lines its line feeds, and
on its first line the columns count the characters of the last line in front of it.

Where a text ends with a brace or a semicolon that is a token, that end is the end of a token
whatever follows. So the tokens of the whole are those of the first text, without the end of the
input, and then those of the second one (`Lexer.tokens_chunk`).
-/

namespace DeclTags

/-! ## Places behind a text -/

/-- The place when the text `before` is put in front of the source. -/
def Cursor.behind (before : List Char) (p : Cursor) : Cursor where
  offset := p.offset + Text.byteSize before
  line := p.line + before.count '\n'
  column := if p.line = 1 then p.column + (Text.lastLine before).length else p.column

/-- The token when the text `before` is put in front of the source. -/
def Token.behind (before : List Char) (t : Token) : Token :=
  { t with
    start := t.start + Text.byteSize before
    stop := t.stop + Text.byteSize before
    line := t.line + before.count '\n'
    column := if t.line = 1 then t.column + (Text.lastLine before).length else t.column }

/-- The lexer when the text `before` is put in front of the source. -/
def Lexer.behind (before : List Char) (l : Lexer) : Lexer :=
  { l with cursor := l.cursor.behind before }

namespace Cursor

variable {p : Cursor}

/-- No step leads to a line before the first. -/
theorem step_line_pos (h : 1 ≤ p.line) (c : Char) : 1 ≤ (p.step c).line := by
  unfold step
  split
  · exact Nat.le_add_right_of_le h
  · exact h

theorem advance_line_pos (h : 1 ≤ p.line) (cs : List Char) : 1 ≤ (p.advance cs).line := by
  induction cs generalizing p with
  | nil => exact h
  | cons c cs ih => exact ih (step_line_pos h c)

theorem step_behind (h : 1 ≤ p.line) (before : List Char) (c : Char) :
    (p.behind before).step c = (p.step c).behind before := by
  unfold step
  by_cases hc : c = '\n'
  · -- behind a line feed no column depends on what is in front
    have hline : ¬p.line + 1 = 1 := by omega
    simp only [if_pos hc, behind, if_neg hline, Nat.add_right_comm]
  · simp only [if_neg hc, behind, Nat.add_right_comm]
    by_cases hline : p.line = 1
    · simp only [if_pos hline, Nat.add_right_comm]
    · simp only [if_neg hline]

theorem advance_behind (h : 1 ≤ p.line) (before cs : List Char) :
    (p.behind before).advance cs = (p.advance cs).behind before := by
  induction cs generalizing p with
  | nil => rfl
  | cons c cs ih =>
      calc (p.behind before).advance (c :: cs)
          = ((p.behind before).step c).advance cs := rfl
        _ = ((p.step c).behind before).advance cs := by rw [step_behind h]
        _ = ((p.step c).advance cs).behind before := ih (step_line_pos h c)

/-- A source that begins behind a text begins where a cursor comes to that goes over it. -/
theorem behind_init (before : List Char) :
    ({} : Cursor).behind before = ({} : Cursor).advance before := by
  rw [advance_eq, behind, if_pos rfl]
  simp only [Nat.zero_add]

end Cursor

namespace Lexer

variable {g : Grammar} {l : Lexer}

theorem headToken_behind (h : 1 ≤ l.cursor.line) (before : List Char) :
    (l.behind before).headToken g = (l.headToken g).behind before := by
  have htext : (l.behind before).headText g = l.headText g := rfl
  have hcursor : (l.behind before).cursor.advance (l.headText g) =
      (l.cursor.advance (l.headText g)).behind before := Cursor.advance_behind h before _
  rw [headToken, htext, hcursor]
  rfl

theorem following_behind (h : 1 ≤ l.cursor.line) (before : List Char) :
    (l.behind before).following g = (l.following g).behind before := by
  have htext : (l.behind before).headText g = l.headText g := rfl
  have hcursor : (l.behind before).cursor.advance (l.headText g) =
      (l.cursor.advance (l.headText g)).behind before := Cursor.advance_behind h before _
  rw [following, htext, hcursor]
  rfl

/-- **Behind a text a lexer yields the same tokens**, in the places behind it. -/
theorem tokens_behind (before : List Char) (l : Lexer) (h : 1 ≤ l.cursor.line) :
    (l.behind before).tokens g = (l.tokens g).map (Token.behind before) := by
  revert h
  have hbefore : ∀ l m : Lexer, (l.behind before).isBefore (m.behind before) = l.isBefore m := by
    intro l m
    simp only [isBefore, behind, Cursor.behind, Nat.add_lt_add_iff_right]
  refine tokens_induction (g := g) (motive := fun l ts => 1 ≤ l.cursor.line →
    (l.behind before).tokens g = ts.map (Token.behind before)) ?finished ?last ?more l
  case finished =>
    intro l hf _
    have hf' : (l.behind before).finished = true := hf
    rw [tokens_finished hf', List.map_nil]
  case last =>
    intro l hf hb h
    have hf' : (l.behind before).finished = false := hf
    rw [tokens_cons hf', headToken_behind h, following_behind h, hbefore, hb]
    rfl
  case more =>
    intro l hf hb ih h
    have hf' : (l.behind before).finished = false := hf
    have hline : 1 ≤ (l.following g).cursor.line := Cursor.advance_line_pos h _
    rw [tokens_cons hf', headToken_behind h, following_behind h, hbefore, hb, if_pos rfl,
      ih hline, List.map_cons]

/-! ## The end of a chunk -/

/-- The lexer at the end of its text, with the text `q` in front of it. -/
def atEnd (l : Lexer) (q : List Char) : Lexer := ⟨l.cursor.advance l.rest, q, false⟩

theorem atEnd_following (g : Grammar) (l : Lexer) (q : List Char) :
    (l.following g).atEnd q = l.atEnd q := by
  rw [atEnd, atEnd]
  conv_rhs => rw [rest_eq_append g l, Cursor.advance_append]
  rfl

/-- At the end of its text a lexer yields the end of the input. -/
theorem tokens_atEnd (g : Grammar) (l : Lexer) :
    (l.atEnd []).tokens g = [(l.atEnd []).headToken g] := by
  have hfinished : ((l.atEnd []).following g).finished = true := rfl
  rw [tokens_cons rfl, tokens_finished hfinished, ite_self]

/-- A structural token that reaches up to the end of the text is all that is left of it. -/
theorem following_eq_atEnd (hs : (l.headToken g).isStructural = true)
    (hend : (l.headToken g).stop = l.cursor.offset + Text.byteSize l.rest) :
    l.following g = l.atEnd [] ∧ l.isBefore (l.following g) = true := by
  have hkind : (l.headToken g).kind ≠ .endOfInput := by
    intro hk
    have hnot : (l.headToken g).isStructural = false := by
      simp [Token.isStructural, Token.isBrace, Token.isPunct, hk]
    rw [hnot] at hs
    cases hs
  have hne : l.rest ≠ [] := fun hnil => hkind (headToken_endOfInput_iff.mpr hnil)
  have hstop : (l.headToken g).stop = l.cursor.offset + Text.byteSize (l.headText g) :=
    Cursor.advance_offset _ _
  have hsize : Text.byteSize l.rest =
      Text.byteSize (l.headText g) + Text.byteSize (l.following g).rest := by
    conv_lhs => rw [rest_eq_append g l, Text.byteSize_append]
  -- nothing is left behind the token
  have hrest : (l.following g).rest = [] := by
    by_contra hne
    have hpos := Text.byteSize_pos hne
    omega
  have htext : l.headText g = l.rest := by
    conv_rhs => rw [rest_eq_append g l, hrest, List.append_nil]
  have hfinished : (l.following g).finished = false := by
    rw [Bool.eq_false_iff]
    exact fun h => hne (following_finished_iff.mp h)
  have hcursor : (l.following g).cursor = l.cursor.advance l.rest := by
    rw [following, htext]
  constructor
  · rw [atEnd, ← hcursor, ← hrest, ← hfinished]
  · have hpos := Text.byteSize_pos hne
    simp only [isBefore, following_offset, htext, Bool.or_eq_true, decide_eq_true_eq]
    omega

/-- **A structural token that ends a text ends it whatever follows**: behind it the tokens are those
of what follows. -/
theorem tokens_chunk (hg : g.MarkersInert) (q : List Char) (l : Lexer) (hf : l.finished = false)
    {t : Token} (ht : t ∈ l.tokens g) (hs : t.isStructural = true)
    (hend : t.stop = l.cursor.offset + Text.byteSize l.rest) :
    ∃ init, l.tokens g = init ++ [t, (l.atEnd []).headToken g] ∧
      (l.withMore q).tokens g = init ++ t :: (l.atEnd q).tokens g := by
  revert hf
  revert ht hend
  refine tokens_induction (g := g) (motive := fun l ts => t ∈ ts →
    t.stop = l.cursor.offset + Text.byteSize l.rest → l.finished = false →
    ∃ init, ts = init ++ [t, (l.atEnd []).headToken g] ∧
      (l.withMore q).tokens g = init ++ t :: (l.atEnd q).tokens g) ?finished ?last ?more l
  case finished =>
    intro l h _ _ hf
    rw [h] at hf
    cases hf
  case last =>
    intro l _ hb ht hend _
    obtain rfl := List.mem_singleton.mp ht
    rw [(following_eq_atEnd hs hend).2] at hb
    cases hb
  case more =>
    intro l hf hb ih ht hend _
    have hmem : t ∈ l.tokens g := by
      rw [tokens_cons hf, if_pos hb]
      exact ht
    rcases head_cases hg q l with ⟨heq, hle, hfinished⟩ | hblunt
    · have hwhole : (l.withMore q).tokens g =
          l.headToken g :: ((l.following g).withMore q).tokens g := by
        rw [tokens_withMore_cons hf heq hle, if_pos hb]
      rcases List.mem_cons.mp ht with rfl | ht
      · -- this token is the last one
        have hfollowing := (following_eq_atEnd hs hend).1
        refine ⟨[], ?_, ?_⟩
        · rw [hfollowing, tokens_atEnd]
          rfl
        · rw [hwhole, hfollowing]
          rfl
      · have hend' : t.stop = (l.following g).cursor.offset +
            Text.byteSize (l.following g).rest := by
          have hsize := congrArg Text.byteSize (rest_eq_append g l)
          rw [Text.byteSize_append] at hsize
          rw [following_offset]
          omega
        obtain ⟨init, htokens, hmore⟩ := ih ht hend' hfinished
        rw [atEnd_following] at htokens hmore
        refine ⟨l.headToken g :: init, ?_, ?_⟩
        · rw [htokens, List.cons_append]
        · rw [hwhole, hmore, List.cons_append]
    · -- from a blunt lexeme on there is no structure
      rw [not_isStructural_of_blunt hblunt t hmem] at hs
      cases hs

end Lexer

/-- The tokens of a text that ends with a brace or semicolon, and those of the text with another one
behind it. -/
theorem tokensOf_chunk {g : Grammar} (hg : g.MarkersInert) (source more : List Char) {t : Token}
    (ht : t ∈ tokensOf g source) (hs : t.isStructural = true)
    (hend : t.stop = Text.byteSize source) :
    ∃ init eof, tokensOf g source = init ++ [t, eof] ∧ eof.kind = .endOfInput ∧
      tokensOf g (source ++ more) =
        init ++ t :: (tokensOf g more).map (Token.behind source) := by
  let l := Lexer.ofSource source
  have hend : t.stop = l.cursor.offset + Text.byteSize l.rest := hend.trans (Nat.zero_add _).symm
  obtain ⟨init, hsource, hwhole⟩ := Lexer.tokens_chunk hg more l rfl ht hs hend
  have hbehind : l.atEnd more = (Lexer.ofSource more).behind source := by
    rw [Lexer.behind, show (Lexer.ofSource more).cursor = {} from rfl, Cursor.behind_init]
    rfl
  refine ⟨init, _, hsource, Lexer.headToken_endOfInput_iff.mpr rfl, ?_⟩
  rw [show tokensOf g (source ++ more) = (l.withMore more).tokens g from rfl, hwhole, hbehind,
    Lexer.tokens_behind source (Lexer.ofSource more) (Nat.le_refl 1)]
  rfl

end DeclTags
