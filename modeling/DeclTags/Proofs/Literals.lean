import DeclTags.Profile.Builtin
import DeclTags.Proofs.LineEnds
import DeclTags.Proofs.Streams

set_option autoImplicit false

/-! # Literals carry any text

Any text can be written as a literal. In a quoted literal a backslash goes before each delimiter,
backslash and line feed (`Literal.quotedText`); behind a verbatim prefix each delimiter is doubled
(`Literal.verbatimText`). Wherever the lexer comes to such a literal, and nothing else that it looks
for earlier begins there, it takes just that literal (`Lexer.literals_carry_any_text`).

Both readers go over what is written for one character of the body at a time
(`Lexeme.quotedBody_escaped`, `Lexeme.verbatimBody_doubled`).
-/

namespace DeclTags

/-! ## What is looked for before a literal -/

/-- What is no white space is no line end. -/
theorem Text.not_lineEnd_of_not_blank {c : Char} (h : isBlank c = false) : c ≠ '\n' ∧ c ≠ '\r' := by
  constructor <;>
  · rintro rfl
    exact absurd h (by decide)

namespace Grammar

variable {g : Grammar} {cs : List Char} {marker : String}

/-- A comment begins at the head of the text. -/
def BeginsComment (g : Grammar) (cs : List Char) : Prop :=
  (∃ marker ∈ g.lineComment, marker.toList <+: cs) ∨
    ∃ markers ∈ g.blockComment, markers.1.toList <+: cs

instance : Decidable (g.BeginsComment cs) := inferInstanceAs (Decidable (_ ∨ _))

/-- At the head of the text stands the marker, and behind it a string delimiter. -/
def BeginsVerbatim (g : Grammar) (cs : List Char) (marker : String) : Prop :=
  ∃ delimiter rest, cs = marker.toList ++ delimiter :: rest ∧ g.isStringDelimiter delimiter = true

theorem opensVerbatim_iff : g.opensVerbatim cs marker = true ↔ g.BeginsVerbatim cs marker := by
  rw [opensVerbatim, Bool.and_eq_true, List.isPrefixOf_iff_prefix, ← String.length_toList]
  constructor
  · rintro ⟨⟨rest, rfl⟩, h⟩
    rw [List.drop_left, Option.any_eq_true] at h
    obtain ⟨delimiter, hhead, hd⟩ := h
    obtain ⟨rest, rfl⟩ := List.head?_eq_some_iff.mp hhead
    exact ⟨delimiter, rest, rfl, hd⟩
  · rintro ⟨delimiter, rest, rfl, hd⟩
    rw [List.drop_left]
    exact ⟨List.prefix_append _ _, hd⟩

instance : Decidable (g.BeginsVerbatim cs marker) := decidable_of_iff _ opensVerbatim_iff

theorem verbatimPrefix?_eq_none (h : ∀ marker ∈ g.verbatimPrefixes, ¬g.BeginsVerbatim cs marker) :
    g.verbatimPrefix? cs = none := by
  rw [verbatimPrefix?, List.find?_eq_none]
  exact fun marker hm hopens => h marker hm (opensVerbatim_iff.mp hopens)

/-- A verbatim prefix that is the only one to open a string is the one found. -/
theorem verbatimPrefix?_eq_some (hm : marker ∈ g.verbatimPrefixes)
    (hopens : g.BeginsVerbatim cs marker)
    (honly : ∀ other ∈ g.verbatimPrefixes, g.BeginsVerbatim cs other → other = marker) :
    g.verbatimPrefix? cs = some marker := by
  cases hfound : g.verbatimPrefix? cs with
  | none => exact absurd (opensVerbatim_iff.mpr hopens) (List.find?_eq_none.mp hfound marker hm)
  | some other =>
      rw [honly other (List.mem_of_find?_eq_some hfound)
        (opensVerbatim_iff.mp (List.find?_some hfound))]

end Grammar

/-- No verbatim prefix of a profile without fault is empty. -/
theorem Profile.Valid.verbatim_ne {p : Profile} (h : p.Valid) {marker : String}
    (hm : marker ∈ p.verbatimPrefixes) : marker ≠ "" := by
  rintro rfl
  have hany : p.verbatimPrefixes.any (·.isEmpty) = true := List.any_eq_true.mpr ⟨"", hm, rfl⟩
  unfold Valid fault? at h
  rw [if_pos hany] at h
  grind

theorem Grammar.Compiled.verbatim_ne {g : Grammar} (h : g.Compiled) {marker : String}
    (hm : marker ∈ g.verbatimPrefixes) : marker ≠ "" := by
  obtain ⟨p, h⟩ := h
  unfold compile at h
  split at h
  · cases h
  · next hvalid =>
    cases h
    exact Profile.Valid.verbatim_ne hvalid (List.mem_mergeSort.mp hm)

namespace Lexeme

variable {g : Grammar} {c : Char} {rest : List Char}

/-- Where no white space stands and no comment begins, literals come first, then words, numbers and
punctuation. -/
theorem atHead_of_not_comment (hblank : Text.isBlank c = false)
    (hcomment : ¬g.BeginsComment (c :: rest)) :
    atHead g (c :: rest) =
      match g.verbatimPrefix? (c :: rest) with
      | some marker => verbatim marker.length (c :: rest)
      | none =>
        if g.isStringDelimiter c then quoted .stringLiteral c (c :: rest)
        else if g.isCharDelimiter c then quoted .charLiteral c (c :: rest)
        else if isWordStart c then word g (c :: rest)
        else if c.isDigit then number (c :: rest)
        else ⟨.punctuation c, 1, true⟩ := by
  obtain ⟨hfeed, hreturn⟩ := Text.not_lineEnd_of_not_blank hblank
  have hline : ¬g.lineComment.any (startsWith (c :: rest)) = true := by
    rw [Option.any_eq_true]
    rintro ⟨marker, hm, hstart⟩
    exact hcomment (.inl ⟨marker, hm, List.isPrefixOf_iff_prefix.mp hstart⟩)
  have hblock : g.blockComment.filter (startsWith (c :: rest) ·.1) = none := by
    rw [Option.filter_eq_none_iff]
    exact fun markers hb hstart =>
      hcomment (.inr ⟨markers, hb, List.isPrefixOf_iff_prefix.mp hstart⟩)
  simp only [atHead, if_neg hfeed, hreturn, false_and, if_neg hline, hblock, hblank,
    Bool.false_eq_true, if_false]
  cases g.verbatimPrefix? (c :: rest) <;> rfl

end Lexeme

/-! ## Writing literals -/

namespace Literal

/-- A body with a backslash before each delimiter, backslash and line feed. -/
def escaped (delimiter : Char) (body : List Char) : List Char :=
  body.flatMap fun c => if c = delimiter ∨ c = '\\' ∨ c = '\n' then ['\\', c] else [c]

/-- A body with each delimiter written twice. -/
def doubled (delimiter : Char) (body : List Char) : List Char :=
  body.flatMap fun c => if c = delimiter then [c, c] else [c]

/-- The quoted literal with that body. -/
def quotedText (delimiter : Char) (body : List Char) : List Char :=
  delimiter :: escaped delimiter body ++ [delimiter]

/-- The verbatim literal with that body. -/
def verbatimText (marker : String) (delimiter : Char) (body : List Char) : List Char :=
  marker.toList ++ delimiter :: doubled delimiter body ++ [delimiter]

end Literal

/-! ## Reading them back -/

namespace Lexeme

open Literal

variable {g : Grammar} {delimiter : Char}

/-- The body of a quoted literal reaches to the delimiter that is not escaped. -/
theorem quotedBody_escaped (hback : delimiter ≠ '\\') (hfeed : delimiter ≠ '\n') (n : Nat)
    (body rest : List Char) :
    quotedBody delimiter n (escaped delimiter body ++ delimiter :: rest) =
      (n + (escaped delimiter body).length + 1, .delimiter) := by
  induction body generalizing n with
  | nil =>
      show quotedBody delimiter n (delimiter :: rest) = (n + 0 + 1, .delimiter)
      rw [quotedBody_cons _ _ _ hback, if_neg hfeed, if_pos rfl, Nat.add_zero]
  | cons c body ih =>
      rw [escaped, List.flatMap_cons, ← escaped]
      by_cases hc : c = delimiter ∨ c = '\\' ∨ c = '\n'
      · -- the backslash takes the character along, whichever it is
        rw [if_pos hc]
        show quotedBody delimiter n ('\\' :: c :: (escaped delimiter body ++ delimiter :: rest)) = _
        rw [quotedBody, ih, List.length_append, ← Nat.add_assoc]
        rfl
      · rw [if_neg hc]
        obtain ⟨hdelimiter, hslash, hline⟩ := not_or.mp hc |>.imp_right not_or.mp
        show quotedBody delimiter n (c :: (escaped delimiter body ++ delimiter :: rest)) = _
        rw [quotedBody_cons _ _ _ hslash, if_neg hline, if_neg hdelimiter, ih, List.length_append,
          ← Nat.add_assoc]
        rfl

/-- The body of a verbatim literal reaches to the delimiter that is not doubled. -/
theorem verbatimBody_doubled {rest : List Char} (hrest : rest.head? ≠ some delimiter) (n : Nat)
    (body : List Char) :
    verbatimBody delimiter n (doubled delimiter body ++ delimiter :: rest) =
      (n + (doubled delimiter body).length + 1, true) := by
  induction body generalizing n with
  | nil =>
      show verbatimBody delimiter n (delimiter :: rest) = (n + 0 + 1, true)
      cases rest with
      | nil => simp [verbatimBody]
      | cons d rest =>
          have hd : d ≠ delimiter := fun h => hrest (by rw [h, List.head?_cons])
          rw [verbatimBody, if_neg (not_not_intro rfl), if_neg hd, Nat.add_zero]
  | cons c body ih =>
      rw [doubled, List.flatMap_cons, ← doubled]
      by_cases hc : c = delimiter
      · rw [if_pos hc, hc]
        show verbatimBody delimiter n
          (delimiter :: delimiter :: (doubled delimiter body ++ delimiter :: rest)) = _
        rw [verbatimBody, if_neg (not_not_intro rfl), if_pos rfl, ih, List.length_append,
          ← Nat.add_assoc]
        rfl
      · rw [if_neg hc]
        show verbatimBody delimiter n (c :: (doubled delimiter body ++ delimiter :: rest)) = _
        rw [verbatimBody_cons_of_ne hc, ih, List.length_append, ← Nat.add_assoc]
        rfl

theorem quoted_quotedText (kind : TokenKind) (hback : delimiter ≠ '\\') (hfeed : delimiter ≠ '\n')
    (body rest : List Char) :
    quoted kind delimiter (quotedText delimiter body ++ rest) =
      ⟨kind, (quotedText delimiter body).length, true⟩ := by
  have hbody := quotedBody_escaped hback hfeed 1 body rest
  have hdrop : (quotedText delimiter body ++ rest).drop 1 =
      escaped delimiter body ++ delimiter :: rest := by simp [quotedText]
  rw [quoted, hdrop, hbody]
  simp [quotedText, Nat.add_comm 1]

theorem verbatim_verbatimText {rest : List Char} (hrest : rest.head? ≠ some delimiter)
    (marker : String) (body : List Char) :
    verbatim marker.length (verbatimText marker delimiter body ++ rest) =
      ⟨.stringLiteral, (verbatimText marker delimiter body).length, true⟩ := by
  have hbody := verbatimBody_doubled hrest (marker.length + 1) body
  have hdrop : (verbatimText marker delimiter body ++ rest).drop marker.length =
      delimiter :: (doubled delimiter body ++ delimiter :: rest) := by
    rw [← String.length_toList]
    simp [verbatimText]
  rw [verbatim, hdrop]
  simp only [hbody]
  simp [verbatimText, ← String.length_toList, Nat.add_assoc, Nat.add_comm 1]

end Lexeme

/-! ## The lexer at a literal -/

namespace Lexer

open Literal

variable {g : Grammar} {l : Lexer}

/-- The next token is closed and has just that text, and the lexer goes on at the rest. -/
def TakesWhole (g : Grammar) (l : Lexer) (kind : TokenKind) (text rest : List Char) : Prop :=
  l.next? g = some
    (⟨kind, String.ofList text, l.cursor.offset, (l.cursor.advance text).offset, l.cursor.line,
      l.cursor.column, true⟩,
    ⟨l.cursor.advance text, rest, false⟩)

theorem takesWhole_of_atHead {kind : TokenKind} {text rest : List Char} (hl : l.finished = false)
    (hrest : l.rest = text ++ rest) (hhead : Lexeme.atHead g l.rest = ⟨kind, text.length, true⟩)
    (hkind : kind ≠ .endOfInput) : l.TakesWhole g kind text rest := by
  have htext : l.headText g = text := by rw [headText, hhead, hrest, List.take_left]
  rw [TakesWhole, next?_eq, if_neg (by simp [hl])]
  simp only [headToken, following, htext, hhead]
  rw [hrest, List.drop_left, beq_eq_false_iff_ne.mpr hkind]

/-- The tokens begin with one that is taken whole. -/
theorem TakesWhole.tokens {kind : TokenKind} {text rest : List Char}
    (h : l.TakesWhole g kind text rest) (hne : text ≠ []) :
    l.tokens g =
      ⟨kind, String.ofList text, l.cursor.offset, (l.cursor.advance text).offset, l.cursor.line,
        l.cursor.column, true⟩ ::
      (⟨l.cursor.advance text, rest, false⟩ : Lexer).tokens g := by
  have hpos := Text.byteSize_pos hne
  have hbefore : l.isBefore ⟨l.cursor.advance text, rest, false⟩ = true := by
    simp only [isBefore, Cursor.advance_offset, Bool.or_eq_true, decide_eq_true_eq]
    omega
  rw [tokens_eq, h]
  simp only [hbefore, if_true]

/-- A quoted literal is taken whole, where no comment and no verbatim string begins. -/
theorem takesWhole_quotedText (hl : l.finished = false) {delimiter : Char}
    (hd : g.isStringDelimiter delimiter = true ∨ g.isCharDelimiter delimiter = true)
    (hblank : Text.isBlank delimiter = false) (hback : delimiter ≠ '\\') {body rest : List Char}
    (hrest : l.rest = quotedText delimiter body ++ rest) (hcomment : ¬g.BeginsComment l.rest)
    (hverbatim : ∀ marker ∈ g.verbatimPrefixes, ¬g.BeginsVerbatim l.rest marker) :
    l.TakesWhole g (if g.isStringDelimiter delimiter then .stringLiteral else .charLiteral)
      (quotedText delimiter body) rest := by
  have hfeed := (Text.not_lineEnd_of_not_blank hblank).1
  have hcons : quotedText delimiter body ++ rest =
      delimiter :: (escaped delimiter body ++ [delimiter] ++ rest) := rfl
  have hquoted := fun kind => Lexeme.quoted_quotedText kind hback hfeed body rest
  refine takesWhole_of_atHead hl hrest ?_ (by split <;> exact TokenKind.noConfusion)
  have hnone := Grammar.verbatimPrefix?_eq_none hverbatim
  rw [hrest, hcons] at hcomment hnone
  rw [hrest, hcons, Lexeme.atHead_of_not_comment hblank hcomment, hnone, ← hcons]
  simp only [hquoted]
  by_cases hstring : g.isStringDelimiter delimiter = true
  · rw [if_pos hstring, if_pos hstring]
  · rw [if_neg hstring, if_neg hstring, if_pos (hd.resolve_left hstring)]

/-- A verbatim literal is taken whole, where no comment and no other verbatim string begins. -/
theorem takesWhole_verbatimText (hg : g.Compiled) (hl : l.finished = false) {marker : String}
    (hm : marker ∈ g.verbatimPrefixes) {delimiter : Char}
    (hd : g.isStringDelimiter delimiter = true)
    (hblank : ∀ c ∈ marker.toList.head?, Text.isBlank c = false) {body rest : List Char}
    (hnext : rest.head? ≠ some delimiter)
    (hrest : l.rest = verbatimText marker delimiter body ++ rest) (hcomment : ¬g.BeginsComment l.rest)
    (honly : ∀ other ∈ g.verbatimPrefixes, g.BeginsVerbatim l.rest other → other = marker) :
    l.TakesWhole g .stringLiteral (verbatimText marker delimiter body) rest := by
  -- a prefix is not empty, so the literal begins with its first character
  obtain ⟨c, cs, hcons⟩ := List.exists_cons_of_ne_nil
    (fun h => hg.verbatim_ne hm (String.toList_eq_nil_iff.mp h))
  have hhead : ∃ after, verbatimText marker delimiter body ++ rest = c :: after :=
    ⟨cs ++ delimiter :: doubled delimiter body ++ [delimiter] ++ rest, by
      simp [verbatimText, hcons]⟩
  obtain ⟨after, hafter⟩ := hhead
  have hopens : g.BeginsVerbatim l.rest marker :=
    ⟨delimiter, doubled delimiter body ++ [delimiter] ++ rest, by
      rw [hrest]; simp [verbatimText], hd⟩
  have hsome := Grammar.verbatimPrefix?_eq_some hm hopens honly
  refine takesWhole_of_atHead hl hrest ?_ TokenKind.noConfusion
  rw [hrest, hafter] at hcomment hsome
  rw [hrest, hafter, Lexeme.atHead_of_not_comment (hblank c (by simp [hcons])) hcomment, hsome,
    ← hafter]
  exact Lexeme.verbatim_verbatimText hnext marker body

/-- **Literals carry any text.** Behind a backslash, or doubled behind a verbatim prefix, the
delimiters of a body do not end it: the lexer takes the literal whole, whatever the body is. -/
theorem literals_carry_any_text (hg : g.Compiled) (hl : l.finished = false)
    (body rest : List Char) :
    (∀ delimiter, g.isStringDelimiter delimiter = true ∨ g.isCharDelimiter delimiter = true →
      Text.isBlank delimiter = false → delimiter ≠ '\\' →
      l.rest = quotedText delimiter body ++ rest → ¬g.BeginsComment l.rest →
      (∀ marker ∈ g.verbatimPrefixes, ¬g.BeginsVerbatim l.rest marker) →
      l.TakesWhole g (if g.isStringDelimiter delimiter then .stringLiteral else .charLiteral)
        (quotedText delimiter body) rest) ∧
    ∀ marker ∈ g.verbatimPrefixes, ∀ delimiter, g.isStringDelimiter delimiter = true →
      (∀ c ∈ marker.toList.head?, Text.isBlank c = false) → rest.head? ≠ some delimiter →
      l.rest = verbatimText marker delimiter body ++ rest → ¬g.BeginsComment l.rest →
      (∀ other ∈ g.verbatimPrefixes, g.BeginsVerbatim l.rest other → other = marker) →
      l.TakesWhole g .stringLiteral (verbatimText marker delimiter body) rest := by
  constructor
  · intro delimiter hd hblank hback hrest hcomment hverbatim
    exact takesWhole_quotedText hl hd hblank hback hrest hcomment hverbatim
  · intro marker hm delimiter hd hblank hnext hrest hcomment honly
    exact takesWhole_verbatimText hg hl hm hd hblank hnext hrest hcomment honly

/-- A body with a delimiter, a backslash, a line end and a brace, written in both ways. -/
theorem literals_carry_delimiters :
    let g := Grammar.ofProfile .csharp
    let quoted : Lexer := { rest := "\"a\\\"\\\\\\\n\x7b\";".toList }
    let verbatim : Lexer := { rest := "$@\"a\"\"\\\n\x7b\";".toList }
    g.Compiled ∧
      quoted.TakesWhole g .stringLiteral "\"a\\\"\\\\\\\n\x7b\"".toList [';'] ∧
      verbatim.TakesWhole g .stringLiteral "$@\"a\"\"\\\n\x7b\"".toList [';'] := by
  intro g quoted verbatim
  have hg : g.Compiled := ⟨.csharp, rfl⟩
  have hprefixes : ∀ marker, marker ∈ g.verbatimPrefixes ↔ marker ∈ ["@", "$@", "@$"] :=
    fun _ => List.mem_mergeSort
  constructor
  · exact hg
  constructor
  · have hnone : ∀ marker ∈ ["@", "$@", "@$"], ¬g.BeginsVerbatim quoted.rest marker := by
      decide +kernel
    exact (literals_carry_any_text hg rfl ['a', '"', '\\', '\n', '{'] [';']).1 '"' (by decide)
      (by decide) (by decide) rfl (by decide)
      fun marker hm => hnone marker ((hprefixes marker).mp hm)
  · have honly : ∀ other ∈ ["@", "$@", "@$"], g.BeginsVerbatim verbatim.rest other →
        other = "$@" := by
      decide +kernel
    have hblank : ∀ c ∈ "$@".toList.head?, Text.isBlank c = false := by
      rintro _ ⟨⟩
      decide
    exact (literals_carry_any_text hg rfl ['a', '"', '\\', '\n', '{'] [';']).2 "$@"
      ((hprefixes "$@").mpr (by decide)) '"' (by decide) hblank (by decide) rfl (by decide +kernel)
      fun other hm => honly other ((hprefixes other).mp hm)

end Lexer

end DeclTags
