import DeclTags.Proofs.Lexemes
import DeclTags.Text.Bytes

set_option autoImplicit false

/-! # Token streams

The tokens of a text stand one behind the other: each begins before the next (`tokensOf_sorted`),
and each is the part of the text between its two offsets (`Token.IsPart`). Both are proved along the
lexer's own recursion, `Lexer.tokens_induction`, where `Lexer.headToken` is the next token and
`Lexer.following` the lexer behind it.
-/

namespace DeclTags

/-! ## Offsets -/

namespace Text

@[simp] theorem byteSize_append (cs ds : List Char) :
    byteSize (cs ++ ds) = byteSize cs + byteSize ds := by
  induction cs with
  | nil => simp [byteSize]
  | cons c cs ih => simp only [List.cons_append, byteSize, ih, Nat.add_assoc]

theorem byteSize_pos {cs : List Char} (h : cs ≠ []) : 0 < byteSize cs := by
  cases cs with
  | nil => exact absurd rfl h
  | cons c cs => exact Nat.add_pos_left c.utf8Size_pos _

end Text

@[simp] theorem Cursor.advance_offset (p : Cursor) (cs : List Char) :
    (p.advance cs).offset = p.offset + Text.byteSize cs := by
  induction cs generalizing p with
  | nil => rfl
  | cons c cs ih =>
      have hstep : (p.step c).offset = p.offset + c.utf8Size := by
        unfold step
        split <;> rfl
      rw [advance, List.foldl_cons, ← advance, ih, hstep, Text.byteSize, Nat.add_assoc]

/-! ## The recursion of the stream -/

namespace Lexer

variable {g : Grammar} {l : Lexer}

/-- The text of the next token. -/
def headText (g : Grammar) (l : Lexer) : List Char :=
  l.rest.take (Lexeme.atHead g l.rest).size

/-- The next token of a lexer that is not finished. -/
def headToken (g : Grammar) (l : Lexer) : Token where
  kind := (Lexeme.atHead g l.rest).kind
  text := String.ofList (l.headText g)
  start := l.cursor.offset
  stop := (l.cursor.advance (l.headText g)).offset
  line := l.cursor.line
  column := l.cursor.column
  terminated := (Lexeme.atHead g l.rest).terminated

/-- The lexer behind the next token. -/
def following (g : Grammar) (l : Lexer) : Lexer where
  cursor := l.cursor.advance (l.headText g)
  rest := l.rest.drop (Lexeme.atHead g l.rest).size
  finished := (Lexeme.atHead g l.rest).kind == .endOfInput

theorem next?_eq : l.next? g =
    if l.finished then none else some (l.headToken g, l.following g) := rfl

/-- The tokens begin with the next one, and end with it if the lexer does not get on. -/
theorem tokens_cons (h : l.finished = false) :
    l.tokens g = l.headToken g ::
      if l.isBefore (l.following g) then (l.following g).tokens g else [] := by
  rw [tokens_eq, next?_eq, h, if_neg Bool.false_ne_true]
  show (if l.isBefore (l.following g) then _ else _) = _
  split <;> rfl

theorem tokens_finished (h : l.finished = true) : l.tokens g = [] := by
  rw [tokens_eq, next?_eq, h, if_pos rfl]

/-- A property of a lexer and its tokens holds if it holds behind the last token and is kept from
the lexer behind a token to the one before it. -/
theorem tokens_induction {motive : Lexer → List Token → Prop}
    (finished : ∀ l, l.finished = true → motive l [])
    (last : ∀ l, l.finished = false → l.isBefore (l.following g) = false →
      motive l [l.headToken g])
    (more : ∀ l, l.finished = false → l.isBefore (l.following g) = true →
      motive (l.following g) ((l.following g).tokens g) →
      motive l (l.headToken g :: (l.following g).tokens g))
    (l : Lexer) : motive l (l.tokens g) := by
  induction hn : l.remaining using Nat.strongRecOn generalizing l with
  | ind n ih =>
      subst hn
      cases hf : l.finished with
      | true =>
          rw [tokens_finished hf]
          exact finished l hf
      | false =>
          rw [tokens_cons hf]
          cases hb : l.isBefore (l.following g) with
          | false => exact last l hf hb
          | true =>
              have hnext : l.next? g = some (l.headToken g, l.following g) := by
                rw [next?_eq, hf, if_neg Bool.false_ne_true]
              exact more l hf hb (ih _ (remaining_lt hnext hb) _ rfl)

/-! What stands at the head of every text decides the tokens. -/

section Congruence

variable {g' : Grammar} (h : ∀ cs, Lexeme.atHead g' cs = Lexeme.atHead g cs)

include h

theorem headToken_congr (l : Lexer) : l.headToken g' = l.headToken g := by
  simp only [headToken, headText, h]

theorem following_congr (l : Lexer) : l.following g' = l.following g := by
  simp only [following, headText, h]

theorem next?_congr (l : Lexer) : l.next? g' = l.next? g := by
  rw [next?_eq, next?_eq, headToken_congr h, following_congr h]

theorem tokens_congr (l : Lexer) : l.tokens g' = l.tokens g := by
  refine tokens_induction (g := g) (motive := fun l ts => l.tokens g' = ts) ?finished ?last ?more l
  case finished => exact fun l hf => tokens_finished hf
  case last =>
    intro l hf hb
    rw [tokens_cons hf, headToken_congr h, following_congr h, hb, if_neg Bool.false_ne_true]
  case more =>
    intro l hf hb ih
    rw [tokens_cons hf, headToken_congr h, following_congr h, hb, if_pos rfl, ih]

end Congruence

/-- Each token is the next one of some lexer. -/
theorem exists_headToken {t : Token} (ht : t ∈ l.tokens g) : ∃ m : Lexer, t = m.headToken g := by
  revert ht
  refine tokens_induction (g := g)
    (motive := fun _ ts => t ∈ ts → ∃ m : Lexer, t = m.headToken g) ?finished ?last ?more l
  case finished => exact fun _ _ ht => by cases ht
  case last => exact fun l _ _ ht => ⟨l, List.mem_singleton.mp ht⟩
  case more =>
    intro l _ _ ih ht
    rcases List.mem_cons.mp ht with rfl | ht
    · exact ⟨l, rfl⟩
    · exact ih ht

@[simp] theorem following_offset :
    (l.following g).cursor.offset = l.cursor.offset + Text.byteSize (l.headText g) :=
  Cursor.advance_offset _ _

/-- No token begins before the place of the lexer. -/
theorem offset_le_start (g : Grammar) (l : Lexer) :
    ∀ t ∈ l.tokens g, l.cursor.offset ≤ t.start := by
  refine tokens_induction (g := g) (motive := fun l ts => ∀ t ∈ ts, l.cursor.offset ≤ t.start)
    ?finished ?last ?more l
  case finished => simp
  case last =>
    intro l _ _ t ht
    rw [List.mem_singleton.mp ht]
    exact Nat.le_refl _
  case more =>
    intro l _ _ ih t ht
    rcases List.mem_cons.mp ht with rfl | ht
    · exact Nat.le_refl _
    · have hle := ih t ht
      rw [following_offset] at hle
      omega

/-- Each token begins before the next. -/
theorem tokens_sorted (g : Grammar) (l : Lexer) :
    (l.tokens g).Pairwise (fun a b => a.start < b.start) := by
  refine tokens_induction (g := g)
    (motive := fun _ ts => ts.Pairwise fun a b => a.start < b.start) ?finished ?last ?more l
  case finished => exact fun _ _ => .nil
  case last => exact fun _ _ _ => List.pairwise_singleton _ _
  case more =>
    intro l _ hb ih
    refine List.pairwise_cons.mpr ⟨fun t ht => ?_, ih⟩
    -- the lexer gets on over some text, or else nothing follows
    rcases (Bool.or_eq_true _ _).mp hb with hlt | hfin
    · exact Nat.lt_of_lt_of_le (of_decide_eq_true hlt) (offset_le_start g _ t ht)
    · rw [tokens_finished hfin] at ht
      cases ht

/-! ## The end of the input -/

/-- Nothing comes behind the end of the input. -/
theorem exists_concat_of_endOfInput (g : Grammar) (l : Lexer) :
    ∀ eof ∈ l.tokens g, eof.kind = .endOfInput →
      ∃ init, l.tokens g = init ++ [eof] ∧ ∀ t ∈ init, t.kind ≠ .endOfInput := by
  refine tokens_induction (g := g) (motive := fun _ ts => ∀ eof ∈ ts, eof.kind = .endOfInput →
    ∃ init, ts = init ++ [eof] ∧ ∀ t ∈ init, t.kind ≠ .endOfInput) ?finished ?last ?more l
  case finished => simp
  case last =>
    intro l _ _ eof hmem _
    rw [List.mem_singleton.mp hmem]
    exact ⟨[], rfl, by simp⟩
  case more =>
    intro l _ _ ih eof hmem heof
    by_cases hk : (l.headToken g).kind = .endOfInput
    · have hfin : (l.following g).finished = true := beq_iff_eq.mpr hk
      rw [tokens_finished hfin] at hmem ⊢
      rw [List.mem_singleton.mp hmem]
      exact ⟨[], rfl, by simp⟩
    · rcases List.mem_cons.mp hmem with rfl | hmem
      · exact absurd heof hk
      · obtain ⟨init, hts, hinit⟩ := ih eof hmem heof
        refine ⟨l.headToken g :: init, by rw [hts, List.cons_append], fun t ht => ?_⟩
        rcases List.mem_cons.mp ht with rfl | ht
        · exact hk
        · exact hinit t ht

/-- In front of some text the next token has a text. -/
theorem headText_ne_nil (hg : g.MarkersNonempty) (hne : l.rest ≠ [])
    (hr : g.lineComment = some "\r" → l.rest ≠ ['\r']) : l.headText g ≠ [] := by
  unfold headText
  cases hrest : l.rest with
  | nil => exact absurd hrest hne
  | cons c rest =>
      have hpos := Lexeme.atHead_size_pos hg c rest (hrest ▸ hr)
      rw [ne_eq, List.take_eq_nil_iff]
      simp [Nat.ne_of_gt hpos]

/-- A lexer in front of some text gets on. -/
theorem isBefore_following (hg : g.MarkersNonempty) (hne : l.rest ≠ [])
    (hr : g.lineComment = some "\r" → l.rest ≠ ['\r']) :
    l.isBefore (l.following g) = true := by
  have hlt := Text.byteSize_pos (headText_ne_nil hg hne hr)
  simp only [isBefore, following_offset, Bool.or_eq_true, decide_eq_true_eq]
  omega

/-- The tokens reach the end of the input. -/
theorem exists_endOfInput (hg : g.MarkersNonempty) (l : Lexer) (hf : l.finished = false)
    (hr : g.lineComment = some "\r" → l.rest.getLast? ≠ some '\r') :
    ∃ eof ∈ l.tokens g, eof.kind = .endOfInput := by
  revert hf hr
  refine tokens_induction (g := g) (motive := fun l ts => l.finished = false →
    (g.lineComment = some "\r" → l.rest.getLast? ≠ some '\r') →
    ∃ eof ∈ ts, eof.kind = .endOfInput) ?finished ?last ?more l
  case finished =>
    intro l h hf
    rw [h] at hf
    cases hf
  case last =>
    intro l _ hb _ hr
    -- the lexer does not get on, so it stands at the end
    have hnil : l.rest = [] := by
      refine Classical.byContradiction fun hne => ?_
      rw [isBefore_following hg hne fun hm hrest => hr hm (by rw [hrest]; rfl)] at hb
      cases hb
    exact ⟨_, List.mem_singleton_self _, by rw [headToken, hnil]; rfl⟩
  case more =>
    intro l _ _ ih _ hr
    cases hfin : (l.following g).finished with
    | true => exact ⟨_, List.mem_cons_self, beq_iff_eq.mp hfin⟩
    | false =>
        have hlast : g.lineComment = some "\r" →
            (l.following g).rest.getLast? ≠ some '\r' := by
          intro hm
          rw [following, List.getLast?_drop]
          split
          · exact (Option.some_ne_none _).symm
          · exact hr hm
        obtain ⟨eof, hmem, heof⟩ := ih hfin hlast
        exact ⟨eof, List.mem_cons_of_mem _ hmem, heof⟩

end Lexer

/-! ## Tokens as parts of the text -/

/-- The offset is one at which a character of the text begins, or its end. -/
def Text.IsBoundary (source : List Char) (offset : Nat) : Prop :=
  ∃ before after, source = before ++ after ∧ offset = Text.byteSize before

/-- Of two beginnings of a text, the one with fewer bytes is a beginning of the other. -/
theorem Text.exists_part_of_lt {source before after before' after' : List Char}
    (h : source = before ++ after) (h' : source = before' ++ after')
    (hlt : Text.byteSize before < Text.byteSize before') : ∃ part, before' = before ++ part := by
  have hb : before <+: source := ⟨after, h.symm⟩
  have hb' : before' <+: source := ⟨after', h'.symm⟩
  rcases List.prefix_or_prefix_of_prefix hb hb' with ⟨part, hp⟩ | ⟨part, hp⟩
  · exact ⟨part, hp.symm⟩
  · rw [← hp, Text.byteSize_append] at hlt
    omega

/-- The token begins and ends between characters of the text. -/
def Token.IsPart (source : List Char) (t : Token) : Prop :=
  Text.IsBoundary source t.start ∧ Text.IsBoundary source t.stop

/-- The lexer has read the beginning of the text, and has the rest of it before itself. -/
def Lexer.IsIn (source : List Char) (l : Lexer) : Prop :=
  ∃ before, source = before ++ l.rest ∧ l.cursor.offset = Text.byteSize before

namespace Lexer.IsIn

variable {g : Grammar} {source : List Char} {l : Lexer}

theorem ofSource (source : List Char) : (Lexer.ofSource source).IsIn source := ⟨[], rfl, rfl⟩

theorem isBoundary (h : l.IsIn source) : Text.IsBoundary source l.cursor.offset := by
  obtain ⟨before, hs, ho⟩ := h
  exact ⟨before, l.rest, hs, ho⟩

theorem following (h : l.IsIn source) : (l.following g).IsIn source := by
  obtain ⟨before, hs, ho⟩ := h
  refine ⟨before ++ l.headText g, ?_, ?_⟩
  · rw [hs, Lexer.following, List.append_assoc, headText, List.take_append_drop]
  · rw [following_offset, ho, Text.byteSize_append]

theorem headToken (h : l.IsIn source) : (l.headToken g).IsPart source :=
  ⟨h.isBoundary, (h.following (g := g)).isBoundary⟩

theorem tokens (h : l.IsIn source) : ∀ t ∈ l.tokens g, t.IsPart source := by
  revert h
  refine tokens_induction (g := g)
    (motive := fun l ts => l.IsIn source → ∀ t ∈ ts, t.IsPart source) ?finished ?last ?more l
  case finished => simp
  case last =>
    intro l _ _ h t ht
    rw [List.mem_singleton.mp ht]
    exact h.headToken
  case more =>
    intro l _ _ ih h t ht
    rcases List.mem_cons.mp ht with rfl | ht
    · exact h.headToken
    · exact ih h.following t ht

end Lexer.IsIn

/-- Each token of a text is a part of it. -/
theorem tokensOf_isPart (g : Grammar) (source : List Char) :
    ∀ t ∈ tokensOf g source, t.IsPart source := (Lexer.IsIn.ofSource source).tokens

/-- Each token begins before the next. -/
theorem tokensOf_sorted (g : Grammar) (source : List Char) :
    (tokensOf g source).Pairwise fun a b => a.start < b.start :=
  (Lexer.ofSource source).tokens_sorted g

/-- **Lexing reaches the end** of every text, with the markers of a compiled grammar; a text that
ends with a carriage return does not count if that alone begins a line comment. -/
theorem tokensOf_ends {g : Grammar} (hg : g.Compiled) {source : List Char}
    (hr : g.lineComment = some "\r" → source.getLast? ≠ some '\r') :
    ∃ eof ∈ tokensOf g source, eof.kind = .endOfInput :=
  Lexer.exists_endOfInput hg.markersNonempty (Lexer.ofSource source) rfl hr

end DeclTags
