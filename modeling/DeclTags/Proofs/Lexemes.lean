import DeclTags.Lexer

set_option autoImplicit false

/-! # Lexemes

What `Lexeme.atHead` finds at the head of a text has one of eleven forms (`atHead_cases`). With the
markers of a compiled grammar each of them takes at least one character of the text, with one
exception: a line comment that consists of a carriage return at the very end, which is not taken
into the comment (`atHead_size_pos`).
-/

namespace DeclTags

/-- The grammar of a profile without fault. -/
def Grammar.Compiled (g : Grammar) : Prop := ∃ p, Grammar.compile p = .ok g

/-- No comment begins with nothing. -/
structure Grammar.MarkersNonempty (g : Grammar) : Prop where
  line : g.lineComment ≠ some ""
  block : ∀ opening closing, g.blockComment = some (opening, closing) → opening ≠ ""

/-- No comment marker of a profile without fault is empty. -/
theorem Profile.Valid.marker_ne {p : Profile} (h : p.Valid) {marker : Option String}
    (hm : marker ∈ [p.comments.line, p.comments.blockStart, p.comments.blockEnd]) :
    marker ≠ some "" := by
  rintro rfl
  have hany : [p.comments.line, p.comments.blockStart, p.comments.blockEnd].any
      (· == some "") = true := List.any_eq_true.mpr ⟨_, hm, beq_self_eq_true _⟩
  unfold Valid fault? at h
  rw [if_pos hany] at h
  split at h
  · cases h
  · split at h <;> cases h

theorem Grammar.Compiled.markersNonempty {g : Grammar} (h : g.Compiled) :
    g.MarkersNonempty := by
  obtain ⟨p, h⟩ := h
  unfold compile at h
  split at h
  · cases h
  · next hvalid =>
    have hp : p.Valid := hvalid
    cases h
    refine ⟨hp.marker_ne List.mem_cons_self, fun opening closing hb hnil => ?_⟩
    simp only [ofProfile] at hb
    split at hb
    · next start _ hstart _ =>
      obtain ⟨rfl, -⟩ := Prod.mk.inj (Option.some.inj hb)
      have hmem : p.comments.blockStart ∈
          [p.comments.line, p.comments.blockStart, p.comments.blockEnd] := by simp
      exact hp.marker_ne hmem (hnil ▸ hstart)
    · cases hb

/-- A profile without fault allows a declaration at least one token. -/
theorem Profile.Valid.maxCandidateTokens_pos {p : Profile} (h : p.Valid) :
    0 < p.maxCandidateTokens := by
  refine Nat.pos_of_ne_zero fun hzero => ?_
  unfold Valid fault? at h
  rw [if_pos hzero] at h
  grind

theorem Grammar.Compiled.maxCandidateTokens_pos {g : Grammar} (h : g.Compiled) :
    0 < g.maxCandidateTokens := by
  obtain ⟨p, h⟩ := h
  unfold compile at h
  split at h
  · cases h
  · next hvalid =>
    cases h
    exact Profile.Valid.maxCandidateTokens_pos hvalid

theorem Text.take_length_takeWhile (p : Char → Bool) (cs : List Char) :
    cs.take (cs.takeWhile p).length = cs.takeWhile p :=
  (List.prefix_iff_eq_take.mp (List.takeWhile_prefix p)).symm

namespace Lexeme

variable {g : Grammar}

/-! ## The forms of a lexeme -/

/-- The lexeme at the head of a text, by its form. -/
theorem atHead_cases {motive : Lexeme → Prop} (c : Char) (rest : List Char)
    (newline : motive ⟨.newline, 1, true⟩)
    (lineEnd : motive ⟨.newline, 2, true⟩)
    (line : ∀ marker, g.lineComment = some marker → startsWith (c :: rest) marker = true →
      c ≠ '\n' → ¬(c = '\r' ∧ rest.head? = some '\n') → motive (lineComment (c :: rest)))
    (block : ∀ opening closing, g.blockComment = some (opening, closing) →
      motive (blockComment opening closing (c :: rest)))
    (blanks : Text.isBlank c = true → c ≠ '\n' → ¬(c = '\r' ∧ rest.head? = some '\n') →
      motive (blank (c :: rest)))
    (verbatims : ∀ marker : String, motive (verbatim marker.length (c :: rest)))
    (strings : Text.isBlank c = false → motive (quoted .stringLiteral c (c :: rest)))
    (chars : Text.isBlank c = false → motive (quoted .charLiteral c (c :: rest)))
    (words : isWordStart c = true → motive (word g (c :: rest)))
    (numbers : c.isDigit = true → motive (number (c :: rest)))
    (other : motive ⟨.punctuation c, 1, true⟩) : motive (atHead g (c :: rest)) := by
  simp only [atHead]
  split
  · exact newline
  · next hn =>
    split
    · exact lineEnd
    · next hr =>
      split
      · next hl =>
        obtain ⟨marker, hm, hs⟩ := (Option.any_eq_true _ _).mp hl
        exact line marker hm hs hn hr
      · split
        · next hb => exact block _ _ (Option.filter_eq_some_iff.mp hb).1
        · split
          · next hb => exact blanks hb hn hr
          · next hb =>
            rw [Bool.not_eq_true] at hb
            split
            · exact verbatims _
            · split
              · exact strings hb
              · split
                · exact chars hb
                · split
                  · next hw => exact words hw
                  · split
                    · next hd => exact numbers hd
                    · exact other

/-! ## Kinds -/

@[simp] theorem blockComment_kind (opening closing : String) (cs : List Char) :
    (blockComment opening closing cs).kind = .blockComment := by
  unfold blockComment
  split <;> rfl

@[simp] theorem verbatim_kind (n : Nat) (cs : List Char) :
    (verbatim n cs).kind = .stringLiteral := by
  unfold verbatim
  split <;> rfl

@[simp] theorem quoted_kind (kind : TokenKind) (delimiter : Char) (cs : List Char) :
    (quoted kind delimiter cs).kind = kind := by
  unfold quoted
  split <;> rfl

@[simp] theorem word_kind_ne (g : Grammar) (cs : List Char) (c : Char) :
    (word g cs).kind ≠ .punctuation c := by
  simp only [word]
  split <;> exact TokenKind.noConfusion

/-- A punctuation character is the first character alone. -/
theorem atHead_eq_of_punctuation {g : Grammar} {c d : Char} {rest : List Char}
    (h : (atHead g (c :: rest)).kind = .punctuation d) :
    atHead g (c :: rest) = ⟨.punctuation c, 1, true⟩ := by
  revert h
  refine atHead_cases (g := g)
    (motive := fun x => x.kind = .punctuation d → x = ⟨.punctuation c, 1, true⟩) c rest
    ?newline ?lineEnd ?line ?block ?blanks ?verbatims ?strings ?chars ?words ?numbers ?other
  case newline | lineEnd => exact TokenKind.noConfusion
  case line => exact fun _ _ _ _ _ => TokenKind.noConfusion
  case block => simp
  case blanks => exact fun _ _ _ => TokenKind.noConfusion
  case verbatims => simp
  case strings => simp
  case chars => simp
  case words => simp
  case numbers => exact fun _ => TokenKind.noConfusion
  case other => exact fun _ => rfl

theorem atHead_punctuation {g : Grammar} {c d : Char} {rest : List Char}
    (h : (atHead g (c :: rest)).kind = .punctuation d) : d = c := by
  rw [atHead_eq_of_punctuation h] at h
  cases h
  rfl

/-- Only the empty text is at its end. -/
theorem atHead_ne_endOfInput (g : Grammar) (c : Char) (rest : List Char) :
    (atHead g (c :: rest)).kind ≠ .endOfInput := by
  refine atHead_cases (g := g) (motive := fun x => x.kind ≠ .endOfInput) c rest
    ?newline ?lineEnd ?line ?block ?blanks ?verbatims ?strings ?chars ?words ?numbers ?other
  case newline | lineEnd | other => exact TokenKind.noConfusion
  case line => exact fun _ _ _ _ _ => TokenKind.noConfusion
  case block => simp
  case blanks => exact fun _ _ _ => TokenKind.noConfusion
  case verbatims => simp
  case strings => simp
  case chars => simp
  case words =>
    intro _
    simp only [word]
    split <;> exact TokenKind.noConfusion
  case numbers => exact fun _ => TokenKind.noConfusion

/-! ## Sizes -/

theorem sizeBeforeReturn_cases (n : Nat) (cs : List Char) :
    sizeBeforeReturn n cs = n ∨
      sizeBeforeReturn n cs = n - 1 ∧ (cs.take n).getLast? = some '\r' := by
  unfold sizeBeforeReturn
  split
  · next h => exact Or.inr ⟨rfl, h⟩
  · exact Or.inl rfl

/-- What is left of some characters without a carriage return at their end, unless they are just
that. -/
theorem sizeBeforeReturn_pos {n : Nat} {c : Char} {rest : List Char} (hn : 0 < n)
    (h : n = 1 → c ≠ '\r') : 0 < sizeBeforeReturn n (c :: rest) := by
  rcases sizeBeforeReturn_cases n (c :: rest) with heq | ⟨heq, hlast⟩
  · omega
  · rw [heq]
    have hne : n ≠ 1 := by
      rintro rfl
      rw [List.take_succ_cons, List.take_zero, List.getLast?_singleton, Option.some.injEq] at hlast
      exact h rfl hlast
    omega

theorem takeWhile_cons_length {p : Char → Bool} {c : Char} (rest : List Char) (h : p c = true) :
    ((c :: rest).takeWhile p).length = (rest.takeWhile p).length + 1 := by
  rw [List.takeWhile_cons_of_pos h, List.length_cons]

theorem le_quotedBody (delimiter : Char) (n : Nat) (cs : List Char) :
    n ≤ (quotedBody delimiter n cs).1 := by
  fun_induction quotedBody delimiter n cs with
  | case1 n => exact Nat.le_refl n
  | case2 n => exact Nat.le_succ n
  | case3 n _ cs ih => exact Nat.le_trans (Nat.le_add_right n 2) ih
  | case4 n => exact Nat.le_refl n
  | case5 n => exact Nat.le_succ n
  | case6 n _ _ _ _ _ _ ih => exact Nat.le_trans (Nat.le_succ n) ih

theorem le_verbatimBody (delimiter : Char) (n : Nat) (cs : List Char) :
    n ≤ (verbatimBody delimiter n cs).1 := by
  fun_induction verbatimBody delimiter n cs with
  | case1 n => exact Nat.le_refl n
  | case2 n => exact Nat.le_succ n
  | case3 n _ _ _ _ ih => exact Nat.le_trans (Nat.le_succ n) ih
  | case4 n _ _ _ ih => exact Nat.le_trans (Nat.le_add_right n 2) ih
  | case5 n => exact Nat.le_succ n

theorem quoted_size_pos (kind : TokenKind) (delimiter c : Char) (rest : List Char)
    (hc : c ≠ '\r') : 0 < (quoted kind delimiter (c :: rest)).size := by
  have hle := le_quotedBody delimiter 1 ((c :: rest).drop 1)
  unfold quoted
  split
  · next n heq =>
    rw [heq] at hle
    exact hle
  · next n heq =>
    rw [heq] at hle
    exact sizeBeforeReturn_pos hle fun _ => hc
  · next n heq =>
    rw [heq] at hle
    exact hle

theorem verbatim_size_pos (n : Nat) (c : Char) (rest : List Char) :
    0 < (verbatim n (c :: rest)).size := by
  unfold verbatim
  split
  · exact Nat.succ_pos _
  · next delimiter body _ =>
    have hle := le_verbatimBody delimiter (n + 1) body
    exact Nat.lt_of_lt_of_le (Nat.succ_pos n) hle

theorem isWordChar_of_isWordStart {c : Char} (h : isWordStart c = true) :
    isWordChar c = true := by
  have halpha : Text.isAlphabetic c = true → Text.isAlphanumeric c = true := by
    unfold Text.isAlphabetic Text.isAlphanumeric
    split <;> simp_all [Char.isAlphanum]
  simp only [isWordStart, isWordChar, Bool.or_eq_true] at h ⊢
  exact h.imp_left (Or.imp_left halpha)

theorem isNumberChar_of_isDigit {c : Char} (h : c.isDigit = true) : isNumberChar c = true := by
  have hlt : c.toNat < 0x80 := by
    simp only [Char.isDigit, Bool.and_eq_true, decide_eq_true_eq] at h
    have hle : c.toNat ≤ '9'.toNat := h.2
    exact Nat.lt_of_le_of_lt hle (by decide)
  simp [isNumberChar, Text.isAlphanumeric, hlt, Char.isAlphanum, h]

/-- A text that begins with an empty line is empty or begins with a line feed. -/
theorem head?_of_takeWhile_eq_nil {rest : List Char}
    (h : (rest.takeWhile (· ≠ '\n')).length = 0) : rest = [] ∨ rest.head? = some '\n' := by
  cases rest with
  | nil => exact Or.inl rfl
  | cons d rest =>
      by_cases hd : d = '\n'
      · exact Or.inr (by rw [hd, List.head?_cons])
      · rw [takeWhile_cons_length rest (by simpa using hd)] at h
        cases h

theorem eq_return_of_startsWith {marker : String} (hne : marker ≠ "")
    (h : startsWith ['\r'] marker = true) : marker = "\r" := by
  have hp : marker.toList <+: ['\r'] := List.isPrefixOf_iff_prefix.mp h
  rcases List.prefix_cons_iff.mp hp with hnil | ⟨rest, hrest, hp'⟩
  · exact absurd (String.toList_eq_nil_iff.mp hnil) hne
  · rw [List.prefix_nil.mp hp'] at hrest
    exact String.toList_injective hrest

/-- **Every lexeme takes something**, except for the line comment of a single carriage return. -/
theorem atHead_size_pos (hg : g.MarkersNonempty) (c : Char) (rest : List Char)
    (h : g.lineComment = some "\r" → c :: rest ≠ ['\r']) :
    0 < (atHead g (c :: rest)).size := by
  refine atHead_cases (g := g) (motive := fun x => 0 < x.size) c rest
    ?newline ?lineEnd ?line ?block ?blanks ?verbatims ?strings ?chars ?words ?numbers ?other
  case newline | lineEnd | other => exact Nat.succ_pos _
  case line =>
    intro marker hm hs hn hr
    have hlen := takeWhile_cons_length (p := (· ≠ '\n')) rest (decide_eq_true hn)
    refine sizeBeforeReturn_pos (hlen ▸ Nat.succ_pos _) fun hone => ?_
    rintro rfl
    -- the comment is a single carriage return, and no line feed follows
    rcases head?_of_takeWhile_eq_nil (Nat.succ_inj.mp (hlen.symm.trans hone)) with rfl | hfeed
    · have hmarker := eq_return_of_startsWith (fun hnil => hg.line (hnil ▸ hm)) hs
      exact h (hmarker ▸ hm) rfl
    · exact hr ⟨rfl, hfeed⟩
  case block =>
    intro opening closing hb
    unfold blockComment
    have hlen : 0 < opening.length := by
      rw [Nat.pos_iff_ne_zero, ne_eq, String.length_eq_zero_iff]
      exact hg.block opening closing hb
    split
    · show 0 < opening.length + _ + closing.length
      omega
    · exact Nat.succ_pos _
  case blanks =>
    intro hb hn hr
    have hlen := takeWhile_cons_length (p := fun d => Text.isBlank d && d ≠ '\n') rest
      (show (Text.isBlank c && c ≠ '\n') = true by simp [hb, hn])
    simp only [blank]
    split
    · next hfeed =>
      refine sizeBeforeReturn_pos (hlen ▸ Nat.succ_pos _) fun hone => ?_
      -- a carriage return before a line feed is a line end and no white space
      rintro rfl
      rw [hone, List.drop_succ_cons, List.drop_zero] at hfeed
      exact hr ⟨rfl, hfeed⟩
    · exact hlen ▸ Nat.succ_pos _
  case verbatims => exact fun marker => verbatim_size_pos _ c rest
  case strings =>
    exact fun hb => quoted_size_pos _ c c rest (by rintro rfl; exact absurd hb (by decide))
  case chars =>
    exact fun hb => quoted_size_pos _ c c rest (by rintro rfl; exact absurd hb (by decide))
  case words =>
    intro hw
    show 0 < ((c :: rest).takeWhile isWordChar).length
    rw [takeWhile_cons_length _ (isWordChar_of_isWordStart hw)]
    exact Nat.succ_pos _
  case numbers =>
    intro hd
    show 0 < ((c :: rest).takeWhile isNumberChar).length
    rw [takeWhile_cons_length _ (isNumberChar_of_isDigit hd)]
    exact Nat.succ_pos _

end Lexeme

end DeclTags
