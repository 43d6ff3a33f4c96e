import DeclTags.Proofs.Comments
import DeclTags.Proofs.LineEnds
import DeclTags.Proofs.Progress
import Mathlib.Order.Monotone.Basic

set_option autoImplicit false

/-! # The tokens of a text with carriage returns

A carriage return before each line feed moves the bytes behind it (`Text.offsetWithReturns`), but no
line and no column. So the tokens are those of the text without carriage returns, with these in
their texts and their offsets moved (`tokensOf_withReturns`). The proof goes along the lexer's
recursion: the lexer in the one text and that in the other make the same steps.
-/

namespace DeclTags

/-! ## Offsets -/

namespace Text

/-- Where a byte offset into a text comes to lie in the text with carriage returns. -/
def offsetWithReturns : List Char → Nat → Nat
  | [], offset => offset
  | c :: cs, offset =>
    if c.utf8Size ≤ offset then
      byteSize (withReturns [c]) + offsetWithReturns cs (offset - c.utf8Size)
    else offset

theorem offsetWithReturns_zero (cs : List Char) : offsetWithReturns cs 0 = 0 := by
  cases cs with
  | nil => rfl
  | cons c cs =>
      have hpos := c.utf8Size_pos
      exact if_neg (by omega)

/-- The offset behind some characters lies behind them with their carriage returns. -/
theorem offsetWithReturns_append (before after : List Char) :
    offsetWithReturns (before ++ after) (byteSize before) = byteSize (withReturns before) := by
  induction before with
  | nil => exact offsetWithReturns_zero after
  | cons c before ih =>
      have hle : c.utf8Size ≤ byteSize (c :: before) := Nat.le_add_right _ _
      have hrest : byteSize (c :: before) - c.utf8Size = byteSize before := by
        simp only [byteSize]
        omega
      rw [List.cons_append, offsetWithReturns, if_pos hle, hrest, ih, ← byteSize_append,
        ← withReturns_append, List.singleton_append]

/-- Offsets keep their order. -/
theorem offsetWithReturns_strictMono (cs : List Char) : StrictMono (offsetWithReturns cs) := by
  intro m n hmn
  induction cs generalizing m n with
  | nil => exact hmn
  | cons c cs ih =>
      have hsize : c.utf8Size ≤ byteSize (withReturns [c]) := by
        by_cases hc : c = '\n'
        · subst hc
          decide
        · rw [withReturns_cons hc]
          simp [byteSize]
      rw [offsetWithReturns, offsetWithReturns]
      by_cases hm : c.utf8Size ≤ m
      · rw [if_pos hm, if_pos (Nat.le_trans hm (Nat.le_of_lt hmn))]
        have := ih (show m - c.utf8Size < n - c.utf8Size by omega)
        omega
      · rw [if_neg hm]
        by_cases hn : c.utf8Size ≤ n
        · rw [if_pos hn]
          omega
        · rw [if_neg hn]
          exact hmn

end Text

theorem Cursor.eq_of {p q : Cursor} (ho : p.offset = q.offset) (hl : p.line = q.line)
    (hc : p.column = q.column) : p = q := by
  cases p
  cases q
  cases ho
  cases hl
  cases hc
  rfl

/-- A carriage return before each line feed changes neither lines nor columns. -/
theorem Cursor.advance_withReturns {p q : Cursor} (hline : q.line = p.line)
    (hcolumn : q.column = p.column) (cs : List Char) :
    (q.advance (Text.withReturns cs)).line = (p.advance cs).line ∧
      (q.advance (Text.withReturns cs)).column = (p.advance cs).column := by
  induction cs generalizing p q with
  | nil => exact ⟨hline, hcolumn⟩
  | cons c cs ih =>
      by_cases hc : c = '\n'
      · subst hc
        refine ih (p := p.step '\n') (q := (q.step '\r').step '\n') ?_ rfl
        show q.line + 1 = p.line + 1
        rw [hline]
      · rw [Text.withReturns_cons hc]
        refine ih (p := p.step c) (q := q.step c) ?_ ?_
        · simp only [step, if_neg hc, hline]
        · simp only [step, if_neg hc, hcolumn]

/-! ## Tokens and lexers -/

/-- The token of the text with carriage returns, `source` being the text without. -/
def Token.withReturns (source : List Char) (t : Token) : Token :=
  { t with
    text := String.ofList (Text.withReturns t.text.toList)
    start := Text.offsetWithReturns source t.start
    stop := Text.offsetWithReturns source t.stop }

/-- The token is no quoted literal with a line feed in it. Only a backslash can take one along;
verbatim strings may go over several lines. -/
def Token.KeepsToLine (g : Grammar) (t : Token) : Prop :=
  t.kind = .stringLiteral ∨ t.kind = .charLiteral →
    g.verbatimPrefix? t.text.toList = none → '\n' ∉ t.text.toList

/-- What opens no verbatim string does not when it is cut off. -/
theorem Grammar.verbatimPrefix?_take {g : Grammar} {cs : List Char}
    (h : g.verbatimPrefix? cs = none) (n : Nat) : g.verbatimPrefix? (cs.take n) = none := by
  rw [verbatimPrefix?, List.find?_eq_none] at h ⊢
  intro marker hm hopens
  refine h marker hm ?_
  rw [opensVerbatim, Bool.and_eq_true] at hopens ⊢
  obtain ⟨hp, hhead⟩ := hopens
  have hbefore : cs.take n <+: cs := List.take_prefix n cs
  refine ⟨List.isPrefixOf_iff_prefix.mpr ((List.isPrefixOf_iff_prefix.mp hp).trans hbefore), ?_⟩
  obtain ⟨rest, hrest⟩ := hbefore
  rw [← hrest, List.drop_append]
  cases hd : (cs.take n).drop marker.length with
  | nil => rw [hd] at hhead; cases hhead
  | cons c ds => rw [hd] at hhead; exact hhead

namespace Lexer

variable {g : Grammar} {source : List Char} {l : Lexer}

/-- The lexer at the same place of the text with carriage returns. -/
def withReturns (source : List Char) (l : Lexer) : Lexer where
  cursor := { l.cursor with offset := Text.offsetWithReturns source l.cursor.offset }
  rest := Text.withReturns l.rest
  finished := l.finished

theorem keepsToLine_of_headToken (h : (l.headToken g).KeepsToLine g) :
    Lexeme.KeepsToLine g l.rest := by
  intro hk hv
  have htext : (l.headToken g).text.toList = l.headText g := String.toList_ofList
  have hfree := h hk
  rw [htext] at hfree
  exact hfree (Grammar.verbatimPrefix?_take hv _)

/-- The text from a lexer on, with carriage returns, begins with the text of its token. -/
theorem withReturns_rest (g : Grammar) (l : Lexer) : Text.withReturns l.rest =
    Text.withReturns (l.headText g) ++ Text.withReturns (l.following g).rest := by
  rw [← Text.withReturns_append, ← rest_eq_append]

section Step

variable (hg : g.MarkersInLine) (hd : g.DelimitersInLine) (hr : '\r' ∉ l.rest)
  (hf : (l.headToken g).KeepsToLine g)
include hg hd hr hf

theorem headText_withReturns :
    (l.withReturns source).headText g = Text.withReturns (l.headText g) := by
  have hhead := Lexeme.atHead_withReturns hg hd hr (keepsToLine_of_headToken hf)
  show (Text.withReturns l.rest).take (Lexeme.atHead g (Text.withReturns l.rest)).size = _
  rw [hhead]
  show (Text.withReturns l.rest).take (Text.withReturns (l.headText g)).length = _
  rw [withReturns_rest g, List.take_left]

theorem following_rest_withReturns :
    ((l.withReturns source).following g).rest = Text.withReturns (l.following g).rest := by
  have hhead := Lexeme.atHead_withReturns hg hd hr (keepsToLine_of_headToken hf)
  show (Text.withReturns l.rest).drop (Lexeme.atHead g (Text.withReturns l.rest)).size = _
  rw [hhead]
  show (Text.withReturns l.rest).drop (Text.withReturns (l.headText g)).length = _
  rw [withReturns_rest g, List.drop_left]

/-- Behind the next token the two lexers stand at the same place again. -/
theorem following_cursor_withReturns (hl : l.IsIn source) :
    ((l.withReturns source).following g).cursor =
      ((l.following g).withReturns source).cursor := by
  obtain ⟨before, hsource, hoffset⟩ := hl
  have hplaces := Cursor.advance_withReturns (p := l.cursor)
    (q := (l.withReturns source).cursor) rfl rfl (l.headText g)
  have hbytes : ((l.withReturns source).following g).cursor.offset =
      Text.offsetWithReturns source (l.following g).cursor.offset := by
    have hbefore : source = before ++ (l.headText g ++ (l.following g).rest) := by
      rw [hsource, ← rest_eq_append]
    have hbehind : source = (before ++ l.headText g) ++ (l.following g).rest := by
      rw [hbefore, List.append_assoc]
    have hthere : Text.offsetWithReturns source (l.following g).cursor.offset =
        Text.byteSize (Text.withReturns (before ++ l.headText g)) := by
      rw [following_offset, hoffset, ← Text.byteSize_append]
      conv_lhs => rw [hbehind]
      exact Text.offsetWithReturns_append _ _
    have hhere : Text.offsetWithReturns source l.cursor.offset =
        Text.byteSize (Text.withReturns before) := by
      rw [hoffset]
      conv_lhs => rw [hbefore]
      exact Text.offsetWithReturns_append _ _
    rw [hthere, following_offset, headText_withReturns hg hd hr hf, Text.withReturns_append,
      Text.byteSize_append, ← hhere]
    rfl
  have hcursor : ((l.withReturns source).following g).cursor =
      (l.withReturns source).cursor.advance (Text.withReturns (l.headText g)) := by
    rw [following, headText_withReturns hg hd hr hf]
  rw [hcursor] at hbytes ⊢
  exact Cursor.eq_of hbytes hplaces.1 hplaces.2

/-- The lexers make the same step. -/
theorem following_withReturns (hl : l.IsIn source) :
    (l.withReturns source).following g = (l.following g).withReturns source := by
  have hhead := Lexeme.atHead_withReturns hg hd hr (keepsToLine_of_headToken hf)
  have hcursor := following_cursor_withReturns hg hd hr hf hl
  have hrest : ((l.withReturns source).following g).rest =
      Text.withReturns (l.following g).rest := following_rest_withReturns hg hd hr hf
  have hfinished : ((l.withReturns source).following g).finished = (l.following g).finished := by
    show ((Lexeme.atHead g (Text.withReturns l.rest)).kind == .endOfInput) = _
    rw [hhead]
    rfl
  calc (l.withReturns source).following g
      = ⟨((l.withReturns source).following g).cursor, ((l.withReturns source).following g).rest,
          ((l.withReturns source).following g).finished⟩ := rfl
    _ = (l.following g).withReturns source := by rw [hcursor, hrest, hfinished]; rfl

/-- The lexers read the same token, apart from the carriage returns. -/
theorem headToken_withReturns (hl : l.IsIn source) :
    (l.withReturns source).headToken g = (l.headToken g).withReturns source := by
  have hhead := Lexeme.atHead_withReturns hg hd hr (keepsToLine_of_headToken hf)
  have hstop : ((l.withReturns source).following g).cursor.offset =
      Text.offsetWithReturns source (l.following g).cursor.offset := by
    rw [following_cursor_withReturns hg hd hr hf hl]
    rfl
  have htext : (l.withReturns source).headText g = Text.withReturns (l.headText g) :=
    headText_withReturns hg hd hr hf
  have hlexeme : Lexeme.atHead g (l.withReturns source).rest =
      (Lexeme.atHead g l.rest).withReturns l.rest := hhead
  have hplain : (l.headToken g).text.toList = l.headText g := String.toList_ofList
  show (⟨(Lexeme.atHead g (l.withReturns source).rest).kind,
    String.ofList ((l.withReturns source).headText g), _,
    ((l.withReturns source).following g).cursor.offset, _, _,
    (Lexeme.atHead g (l.withReturns source).rest).terminated⟩ : Token) = _
  rw [hlexeme, hstop, htext, Token.withReturns, hplain]
  rfl

/-- One of the lexers gets on where the other does. -/
theorem isBefore_withReturns (hl : l.IsIn source) :
    (l.withReturns source).isBefore ((l.withReturns source).following g) =
      l.isBefore (l.following g) := by
  rw [following_withReturns hg hd hr hf hl]
  have hlt : Text.offsetWithReturns source l.cursor.offset <
      Text.offsetWithReturns source (l.following g).cursor.offset ↔
      l.cursor.offset < (l.following g).cursor.offset :=
    (Text.offsetWithReturns_strictMono source).lt_iff_lt
  exact congrArg (· || (l.following g).finished) (decide_eq_decide.mpr hlt)

end Step

/-- The tokens of the lexer in the text with carriage returns. -/
theorem tokens_withReturns (hg : g.MarkersInLine) (hd : g.DelimitersInLine) (l : Lexer)
    (hl : l.IsIn source) (hr : '\r' ∉ l.rest) (hf : ∀ t ∈ l.tokens g, t.KeepsToLine g) :
    (l.withReturns source).tokens g = (l.tokens g).map (Token.withReturns source) := by
  revert hl hr hf
  refine tokens_induction (g := g) (motive := fun l ts => l.IsIn source → '\r' ∉ l.rest →
    (∀ t ∈ ts, t.KeepsToLine g) →
      (l.withReturns source).tokens g = ts.map (Token.withReturns source))
    ?finished ?last ?more l
  case finished =>
    intro l hfin _ _ _
    exact tokens_finished hfin
  case last =>
    intro l hfin hb hl hr hf
    have hhead := hf _ (List.mem_singleton_self _)
    have hfin' : (l.withReturns source).finished = false := hfin
    rw [tokens_cons hfin', isBefore_withReturns hg hd hr hhead hl, hb, if_neg Bool.false_ne_true,
      headToken_withReturns hg hd hr hhead hl]
    rfl
  case more =>
    intro l hfin hb ih hl hr hf
    have hhead := hf _ List.mem_cons_self
    have hfin' : (l.withReturns source).finished = false := hfin
    have hrest : '\r' ∉ (l.following g).rest := fun hmem => hr (List.mem_of_mem_drop hmem)
    have htail := ih hl.following hrest fun t ht => hf t (List.mem_cons_of_mem _ ht)
    rw [tokens_cons hfin', isBefore_withReturns hg hd hr hhead hl, hb, if_pos rfl,
      headToken_withReturns hg hd hr hhead hl, following_withReturns hg hd hr hhead hl, htail,
      List.map_cons]

end Lexer

/-- **The tokens of a text with carriage returns** are those of the text without, with carriage
returns in their texts and with moved offsets, on the same lines and in the same columns. -/
theorem tokensOf_withReturns {g : Grammar} (hg : g.MarkersInLine) (hd : g.DelimitersInLine)
    {source : List Char} (hr : '\r' ∉ source) (hf : ∀ t ∈ tokensOf g source, t.KeepsToLine g) :
    tokensOf g (Text.withReturns source) =
      (tokensOf g source).map (Token.withReturns source) := by
  have hstart : Lexer.ofSource (Text.withReturns source) =
      (Lexer.ofSource source).withReturns source := by
    rw [Lexer.withReturns]
    show (⟨⟨0, 1, 1⟩, Text.withReturns source, false⟩ : Lexer) =
      ⟨⟨Text.offsetWithReturns source 0, 1, 1⟩, Text.withReturns source, false⟩
    rw [Text.offsetWithReturns_zero]
  rw [tokensOf, hstart]
  exact Lexer.tokens_withReturns hg hd _ (Lexer.IsIn.ofSource source) hr hf

/-! ## Code -/

/-- Neither white space, nor a comment or a literal. -/
def TokenKind.isPlainCode (kind : TokenKind) : Bool :=
  !kind.isBlank && !kind.isComment && !kind.isLiteral

/-- Words and punctuation have no line feed in them. -/
theorem Lexeme.not_mem_feed {g : Grammar} {cs : List Char}
    (h : (atHead g cs).kind.isPlainCode = true) : '\n' ∉ cs.take (atHead g cs).size := by
  cases cs with
  | nil => simp
  | cons c rest =>
      have hc : c ≠ '\n' := by
        rintro rfl
        rw [atHead, if_pos rfl] at h
        cases h
      revert h
      refine atHead_cases (g := g) (motive := fun x => x.kind.isPlainCode = true →
        '\n' ∉ (c :: rest).take x.size) c rest
        ?newline ?lineEnd ?line ?block ?blanks ?verbatims ?strings ?chars ?words ?numbers ?other
      case newline | lineEnd => exact fun h => by cases h
      case line => exact fun _ _ _ _ _ h => by cases h
      case block => exact fun _ _ _ h => by rw [blockComment_kind] at h; cases h
      case blanks => exact fun _ _ _ h => by cases h
      case verbatims => exact fun _ h => by rw [verbatim_kind] at h; cases h
      case strings => exact fun _ h => by rw [quoted_kind] at h; cases h
      case chars => exact fun _ h => by rw [quoted_kind] at h; cases h
      case words =>
        intro _ _ hmem
        rw [word, Text.take_length_takeWhile] at hmem
        exact not_mem_takeWhile (by decide) _ hmem
      case numbers => exact fun _ h => by cases h
      case other =>
        intro _ hmem
        rw [List.take_succ_cons, List.take_zero, List.mem_singleton] at hmem
        exact hc hmem.symm

/-- Of words and punctuation, the text is the same with carriage returns in the source. -/
theorem text_withReturns {g : Grammar} {source : List Char} {t : Token}
    (ht : t ∈ tokensOf g source) (h : t.kind.isPlainCode = true) :
    (t.withReturns source).text = t.text := by
  obtain ⟨l, rfl⟩ := Lexer.exists_headToken ht
  have htext : (l.headToken g).text.toList = l.headText g := String.toList_ofList
  have hfeed : '\n' ∉ l.headText g := Lexeme.not_mem_feed h
  rw [Token.withReturns, htext, Text.withReturns_eq_self hfeed, ← htext]
  exact String.ofList_toList

end DeclTags
