import DeclTags.Proofs.ListingLines

set_option autoImplicit false

/-! # Doc summaries line by line

The summary of a doc comment is read in one pass over its body, in which the white space before a
star run may reach over several lines. It says the same as the plain reading: take the text between
the delimiters (`DocComment.Encloses`), cut it into lines, take the star run off the head of each
line that begins with one (`DocComment.bareLine`), and join the words of all lines with single
spaces (`Symbol.docSummary_by_lines`).

The pass is followed line by line (`DocComment.words_indent`); in between, only white space has been
put aside.
-/

namespace DeclTags

/-! ## Words -/

namespace Text

variable {cs u v : List Char} {c : Char}

theorem wordsOnto_eq (found : List (List Char)) (word cs : List Char) :
    wordsOnto found word cs =
      found.reverse ++
        ((cs.splitOnP isBlank).modifyHead (word.reverse ++ ·)).filter (!·.isEmpty) := by
  induction cs generalizing found word with
  | nil => cases word <;> simp [wordsOnto]
  | cons c cs ih =>
      rw [wordsOnto, List.splitOnP_cons_eq_if_modifyHead]
      by_cases hc : isBlank c = true
      · rw [if_pos hc, if_pos hc, ih]
        obtain ⟨piece, pieces, hp⟩ := List.exists_cons_of_ne_nil (List.splitOnP_ne_nil isBlank cs)
        cases word <;> simp [hp]
      · rw [if_neg hc, if_neg hc, ih, List.modifyHead_modifyHead]
        simp [Function.comp_def]

/-- The words are what stands between white space, where that is not empty. -/
theorem words_eq (cs : List Char) : words cs = (cs.splitOnP isBlank).filter (!·.isEmpty) := by
  obtain ⟨piece, pieces, hp⟩ := List.exists_cons_of_ne_nil (List.splitOnP_ne_nil isBlank cs)
  rw [words, wordsOnto_eq, hp]
  rfl

theorem words_append_blank (hc : isBlank c = true) (u v : List Char) :
    words (u ++ c :: v) = words u ++ words v := by
  rw [words_eq, words_eq, words_eq, List.splitOnP_append_cons u v hc, List.filter_append]

theorem words_blank_append (hu : ∀ c ∈ u, isBlank c = true) : words (u ++ v) = words v := by
  induction u with
  | nil => rfl
  | cons c u ih =>
      rw [List.forall_mem_cons] at hu
      exact (words_append_blank hu.1 [] (u ++ v)).trans (ih hu.2)

theorem words_of_blank (hu : ∀ c ∈ u, isBlank c = true) : words u = [] := by
  have h := words_blank_append (v := []) hu
  rwa [List.append_nil] at h

theorem mem_words {word : List Char} (h : word ∈ words cs) :
    word ≠ [] ∧ ∀ c ∈ word, isBlank c = false := by
  refine ⟨?_, isBlank_of_mem_wordsOnto (by simp) (by simp) word h⟩
  rw [words_eq, List.mem_filter] at h
  simpa using h.2

/-- What holds of a single line, and behind a line of what follows it, holds of every text. -/
theorem line_induction {motive : List Char → Prop} (last : ∀ line, '\n' ∉ line → motive line)
    (more : ∀ line rest, '\n' ∉ line → motive rest → motive (line ++ '\n' :: rest))
    (cs : List Char) : motive cs := by
  induction hn : cs.length using Nat.strongRecOn generalizing cs with
  | ind n ih =>
      subst hn
      by_cases hmem : '\n' ∈ cs
      · obtain ⟨line, rest, rfl, hline⟩ := List.eq_append_cons_of_mem hmem
        refine more line rest hline (ih _ ?_ rest rfl)
        rw [List.length_append, List.length_cons]
        omega
      · exact last cs hmem

/-- White space stands in the text only as single spaces between other characters. -/
structure SingleSpaced (cs : List Char) : Prop where
  only_spaces : ∀ c ∈ cs, isBlank c = true → c = ' '
  not_doubled : ¬[' ', ' '] <:+: cs
  not_leading : cs.head? ≠ some ' '
  not_trailing : cs.getLast? ≠ some ' '

end Text

namespace DocComment

open DeclTags.Text (isBlank words)

/-! ## The plain reading -/

/-- The comment is a slash and stars, the text, and stars and a slash, all stars at the ends being
those of the delimiters. -/
def Encloses (comment inner : List Char) : Prop :=
  ∃ m n, 0 < m ∧ 0 < n ∧
    comment = '/' :: (List.replicate m '*' ++ inner ++ List.replicate n '*' ++ ['/']) ∧
    inner.head? ≠ some '*' ∧ inner.getLast? ≠ some '*'

/-- A line without its white space and star run at the head, if a star is the first character that
is not white space. -/
def bareLine (line : List Char) : List Char :=
  let text := line.dropWhile isBlank
  if text.head? = some '*' then text.dropWhile isStar else line

/-- The words of all lines, each without the star run at its head: what stands between white space
and is not empty. -/
def lineWords (inner : List Char) : List (List Char) :=
  (inner.splitOn '\n').flatMap fun line =>
    ((bareLine line).splitOnP isBlank).filter (!·.isEmpty)

/-! ## The body of a comment -/

theorem dropWhile_isStar (n : Nat) {cs : List Char} (h : cs.head? ≠ some '*') :
    (List.replicate n '*' ++ cs).dropWhile isStar = cs := by
  rw [List.dropWhile_append_of_pos fun c hc => by simp [List.eq_of_mem_replicate hc, isStar]]
  cases cs with
  | nil => rfl
  | cons c cs =>
      refine List.dropWhile_cons_of_neg ?_
      simpa [isStar] using h

theorem dropTrailing_isStar (n : Nat) {cs : List Char} (h : cs.getLast? ≠ some '*') :
    dropTrailing isStar (cs ++ List.replicate n '*') = cs := by
  rw [dropTrailing, List.reverse_append, List.reverse_replicate,
    dropWhile_isStar n (by rwa [List.head?_reverse]), List.reverse_reverse]

/-- The body that is found is the text enclosed. -/
theorem closedBody?_of_encloses {comment inner : List Char} (h : Encloses comment inner) :
    closedBody? comment = some inner := by
  obtain ⟨m, n, hm, hn, rfl, hhead, hlast⟩ := h
  obtain ⟨m, rfl⟩ := Nat.exists_eq_succ_of_ne_zero hm.ne'
  obtain ⟨n, rfl⟩ := Nat.exists_eq_succ_of_ne_zero hn.ne'
  have hcomment :
      '/' :: (List.replicate (m + 1) '*' ++ inner ++ List.replicate (n + 1) '*' ++ ['/']) =
        '/' :: '*' :: (List.replicate m '*' ++ (inner ++ (List.replicate (n + 1) '*' ++ ['/']))) := by
    simp [List.replicate_succ]
  rw [hcomment, closedBody?]
  cases inner with
  | nil =>
      -- one run of stars, which the two delimiters share out
      have hstars : List.replicate m '*' ++ ([] ++ (List.replicate (n + 1) '*' ++ ['/'])) =
          List.replicate (m + n + 1) '*' ++ ['/'] := by
        rw [List.nil_append, ← List.append_assoc, List.replicate_append_replicate, Nat.add_assoc]
      have hdrop : (List.replicate (m + n + 1) '*' ++ ['/']).dropWhile isStar = ['/'] :=
        dropWhile_isStar _ (by decide)
      have hstar : (List.replicate (m + n + 1) '*' ++ ['/']).head? = some '*' := by
        rw [List.replicate_succ, List.cons_append, List.head?_cons]
      simp only [hstars, hdrop, hstar]
      decide
  | cons c inner =>
      have hdrop : (List.replicate m '*' ++
          (c :: inner ++ (List.replicate (n + 1) '*' ++ ['/']))).dropWhile isStar =
          (c :: inner ++ List.replicate (n + 1) '*') ++ ['/'] := by
        rw [dropWhile_isStar m (by simpa using hhead), List.append_assoc]
      have hsuffix : ['*', '/'].isSuffixOf ((c :: inner ++ List.replicate (n + 1) '*') ++ ['/']) =
          true := by
        rw [List.isSuffixOf_iff_suffix, List.replicate_succ', ← List.append_assoc]
        exact ⟨c :: inner ++ List.replicate n '*', by simp⟩
      simp only [hdrop, hsuffix, if_true, List.dropLast_concat, dropTrailing_isStar (n + 1) hlast]

theorem exists_stars_at_head (cs : List Char) :
    ∃ n rest, cs = List.replicate n '*' ++ rest ∧ rest.head? ≠ some '*' := by
  induction cs with
  | nil => exact ⟨0, [], rfl, by simp⟩
  | cons c cs ih =>
      by_cases hc : c = '*'
      · obtain ⟨n, rest, rfl, hrest⟩ := ih
        exact ⟨n + 1, rest, by rw [hc, List.replicate_succ, List.cons_append], hrest⟩
      · exact ⟨0, c :: cs, rfl, by simpa using hc⟩

/-- A comment with both delimiters, apart from each other, encloses a text. -/
theorem exists_encloses {comment : List Char} (hopen : ['/', '*'] <+: comment)
    (hclose : ['*', '/'] <:+ comment) (hlen : 4 ≤ comment.length) :
    ∃ inner, Encloses comment inner := by
  obtain ⟨after, rfl⟩ := hopen
  have hafter : ['*', '/'] <:+ after :=
    List.suffix_of_suffix_length_le hclose (List.suffix_append _ _) (by simpa using hlen)
  obtain ⟨between, rfl⟩ := hafter
  -- the stars next to the delimiters belong to these: first those at the head, then of what is
  -- left those at the end
  obtain ⟨m, rest, rfl, hrest⟩ := exists_stars_at_head between
  obtain ⟨n, inner, hinner, hlast⟩ := exists_stars_at_head rest.reverse
  have hrest_eq : rest = inner.reverse ++ List.replicate n '*' := by
    rw [← List.reverse_inj, hinner, List.reverse_append, List.reverse_reverse,
      List.reverse_replicate]
  refine ⟨inner.reverse, m + 1, n + 1, by omega, by omega, ?_, ?_, by rwa [List.getLast?_reverse]⟩
  · rw [hrest_eq, List.replicate_succ, List.replicate_succ']
    simp
  · intro hstar
    obtain ⟨tail, htail⟩ := List.head?_eq_some_iff.mp hstar
    rw [hrest_eq, htail] at hrest
    exact hrest rfl

/-! ## The pass, line by line -/

/-- What is kept already stands in front of what the pass keeps of the rest. -/
theorem withoutStarsOnto_eq (kept : List Char) (margin : Margin) (cs : List Char) :
    withoutStarsOnto kept margin cs = kept.reverse ++ withoutStarsOnto [] margin cs := by
  induction cs generalizing kept margin with
  | nil => cases margin <;> simp [withoutStarsOnto]
  | cons c cs ih =>
      cases margin with
      | indent blanks =>
          simp only [withoutStarsOnto]
          split
          · exact ih kept .stars
          · split
            · exact ih kept _
            · rw [ih (c :: (blanks ++ kept)), ih (c :: (blanks ++ []))]
              simp
      | stars =>
          simp only [withoutStarsOnto]
          split
          · exact ih kept .stars
          · split
            · exact ih kept .inside
            · rw [ih (c :: kept), ih [c]]
              simp
      | inside =>
          simp only [withoutStarsOnto]
          rw [ih (c :: kept), ih [c]]
          simp

/-- Behind its margin a line is kept as it is. -/
theorem withoutStarsOnto_inside {line : List Char} (h : '\n' ∉ line) (kept rest : List Char) :
    withoutStarsOnto kept .inside (line ++ rest) =
      withoutStarsOnto (line.reverse ++ kept) .inside rest := by
  induction line generalizing kept with
  | nil => rfl
  | cons c line ih =>
      rw [List.mem_cons, not_or] at h
      rw [List.cons_append, withoutStarsOnto, Margin.after, if_neg (Ne.symm h.1), ih h.2]
      simp

/-- White space at the head of a line is put aside. -/
theorem withoutStarsOnto_indent {line : List Char} (h : ∀ c ∈ line, isBlank c = true)
    (kept blanks rest : List Char) :
    withoutStarsOnto kept (.indent blanks) (line ++ rest) =
      withoutStarsOnto kept (.indent (line.reverse ++ blanks)) rest := by
  induction line generalizing blanks with
  | nil => rfl
  | cons c line ih =>
      rw [List.forall_mem_cons] at h
      have hstar : ¬isStar c = true := by
        rw [isStar, decide_eq_true_eq]
        rintro rfl
        exact absurd h.1 (by decide)
      rw [List.cons_append, withoutStarsOnto, if_neg hstar, if_pos h.1, ih h.2]
      simp

/-- The end of a line, or that of the text. -/
def AtLineEnd (rest : List Char) : Prop := ∀ c ∈ rest.head?, c = '\n'

/-- Behind its first stars a line is kept but for more of them and one space. -/
theorem withoutStarsOnto_stars {line rest : List Char} (h : '\n' ∉ line) (hrest : AtLineEnd rest)
    (kept : List Char) :
    ∃ text, words text = words (line.dropWhile isStar) ∧
      withoutStarsOnto kept .stars (line ++ rest) =
        withoutStarsOnto (text.reverse ++ kept) .inside rest := by
  induction line with
  | nil =>
      refine ⟨[], rfl, ?_⟩
      cases rest with
      | nil => rfl
      | cons c rest =>
          obtain rfl : c = '\n' := hrest c rfl
          rfl
  | cons c line ih =>
      rw [List.mem_cons, not_or] at h
      by_cases hstar : isStar c = true
      · obtain ⟨text, hwords, heq⟩ := ih h.2
        refine ⟨text, by rwa [List.dropWhile_cons_of_pos hstar], ?_⟩
        rw [List.cons_append, withoutStarsOnto, if_pos hstar]
        exact heq
      · rw [List.dropWhile_cons_of_neg hstar, List.cons_append, withoutStarsOnto, if_neg hstar]
        -- a space behind the stars is dropped with them, which no word can tell
        by_cases hspace : c = ' '
        · refine ⟨line, (Text.words_append_blank (c := c) ?_ [] line).symm, ?_⟩
          · rw [hspace]
            decide
          · rw [if_pos hspace, withoutStarsOnto_inside h.2]
        · refine ⟨c :: line, rfl, ?_⟩
          rw [if_neg hspace, Margin.after, if_neg (Ne.symm h.1), withoutStarsOnto_inside h.2]
          simp

/-- Of a line with more in it than white space, the bare line is kept. -/
theorem withoutStarsOnto_line {line rest : List Char} (h : '\n' ∉ line) (hrest : AtLineEnd rest)
    (hline : line.dropWhile isBlank ≠ []) {blanks : List Char}
    (hblanks : ∀ c ∈ blanks, isBlank c = true) :
    ∃ text, words text = words (bareLine line) ∧
      withoutStarsOnto [] (.indent blanks) (line ++ rest) =
        withoutStarsOnto text.reverse .inside rest := by
  obtain ⟨c, more, hmore⟩ := List.exists_cons_of_ne_nil hline
  have hsplit : line = line.takeWhile isBlank ++ c :: more := by
    rw [← hmore, List.takeWhile_append_dropWhile]
  have hindent : ∀ d ∈ line.takeWhile isBlank, isBlank d = true :=
    fun d hd => List.mem_takeWhile_imp hd
  have hfeed : '\n' ∉ more := fun hm => h (hsplit ▸ by simp [hm])
  have hblank : ¬isBlank c = true := by
    have := List.head_dropWhile_not isBlank hline
    simpa [hmore] using this
  have hpass : withoutStarsOnto [] (.indent blanks) (line ++ rest) =
      withoutStarsOnto [] (.indent ((line.takeWhile isBlank).reverse ++ blanks))
        (c :: (more ++ rest)) := by
    conv_lhs => rw [hsplit, List.append_assoc, withoutStarsOnto_indent hindent, List.cons_append]
  -- the first character that is no white space decides: at a star the indent is dropped, else kept
  rw [hpass, withoutStarsOnto]
  by_cases hstar : isStar c = true
  · have hc : c = '*' := by simpa [isStar] using hstar
    obtain ⟨text, hwords, heq⟩ := withoutStarsOnto_stars hfeed hrest []
    refine ⟨text, ?_, ?_⟩
    · rw [hwords, bareLine, hmore, if_pos (by rw [hc, List.head?_cons]),
        List.dropWhile_cons_of_pos hstar]
    · rw [if_pos hstar, heq, List.append_nil]
  · have hc : ¬(c :: more).head? = some '*' := by simpa [isStar] using hstar
    refine ⟨blanks.reverse ++ line, ?_, ?_⟩
    · rw [Text.words_blank_append fun d hd => hblanks d (List.mem_reverse.mp hd), bareLine, hmore,
        if_neg hc]
    · rw [if_neg hstar, if_neg hblank, withoutStarsOnto_inside hfeed]
      conv_rhs => rw [hsplit]
      simp

theorem lineWords_line {line : List Char} (h : '\n' ∉ line) :
    lineWords line = words (bareLine line) := by
  rw [lineWords, List.splitOn_eq_singleton h, List.flatMap_singleton, Text.words_eq]

theorem lineWords_more {line : List Char} (h : '\n' ∉ line) (rest : List Char) :
    lineWords (line ++ '\n' :: rest) = words (bareLine line) ++ lineWords rest := by
  rw [lineWords, List.splitOn_append_cons_self_of_not_mem h, List.flatMap_cons, ← lineWords,
    Text.words_eq]

/-- A line of white space has no words. -/
theorem words_bareLine_of_blank {line : List Char} (h : line.dropWhile isBlank = []) :
    words (bareLine line) = [] := by
  rw [bareLine, h]
  exact Text.words_of_blank (by simpa [List.dropWhile_eq_nil_iff] using h)

/-- **The words that the pass keeps are those of the bare lines**, whatever white space has been put
aside before. -/
theorem words_indent (cs : List Char) : ∀ blanks : List Char, (∀ c ∈ blanks, isBlank c = true) →
    words (withoutStarsOnto [] (.indent blanks) cs) = lineWords cs := by
  refine Text.line_induction (motive := fun cs => ∀ blanks : List Char,
    (∀ c ∈ blanks, isBlank c = true) →
      words (withoutStarsOnto [] (.indent blanks) cs) = lineWords cs) ?last ?more cs
  case last =>
    intro line hline blanks hblanks
    rw [lineWords_line hline]
    by_cases hempty : line.dropWhile isBlank = []
    · have hall : ∀ c ∈ line, isBlank c = true := by
        simpa [List.dropWhile_eq_nil_iff] using hempty
      have hpass := withoutStarsOnto_indent hall [] blanks []
      rw [List.append_nil] at hpass
      rw [words_bareLine_of_blank hempty, hpass, withoutStarsOnto]
      refine Text.words_of_blank fun c hc => ?_
      simp only [List.append_nil, List.mem_reverse, List.mem_append] at hc
      exact hc.elim (hall c) (hblanks c)
    · obtain ⟨text, hwords, hpass⟩ :=
        withoutStarsOnto_line hline (show AtLineEnd [] by simp [AtLineEnd]) hempty hblanks
      rw [List.append_nil] at hpass
      rw [hpass, withoutStarsOnto, List.reverse_reverse, hwords]
      simp
  case more =>
    intro line rest hline ih blanks hblanks
    rw [lineWords_more hline]
    by_cases hempty : line.dropWhile isBlank = []
    · -- the line and its end are put aside
      have hall : ∀ c ∈ line ++ ['\n'], isBlank c = true := by
        have hfeed : isBlank '\n' = true := by decide
        simpa [List.dropWhile_eq_nil_iff, or_imp, forall_and, hfeed] using hempty
      have hpass := withoutStarsOnto_indent hall [] blanks rest
      rw [List.append_assoc, List.singleton_append] at hpass
      rw [words_bareLine_of_blank hempty, hpass, List.nil_append]
      refine ih _ fun c hc => ?_
      rw [List.mem_append, List.mem_reverse] at hc
      exact hc.elim (hall c) (hblanks c)
    · obtain ⟨text, hwords, hpass⟩ :=
        withoutStarsOnto_line hline (show AtLineEnd ('\n' :: rest) by simp [AtLineEnd]) hempty
          hblanks
      -- the line end is kept, and parts the words of the line from those behind it
      rw [hpass, withoutStarsOnto_eq, List.reverse_reverse, withoutStarsOnto, withoutStarsOnto_eq]
      show words (text ++ '\n' :: withoutStarsOnto [] (.indent []) rest) = _
      rw [Text.words_append_blank (by decide), hwords, ih [] (by simp)]

/-! ## Joined words -/

theorem not_doubled_append {piece rest : List Char} (hpiece : ' ' ∉ piece)
    (hrest : ¬[' ', ' '] <:+: rest) (hhead : rest.head? ≠ some ' ') :
    ¬[' ', ' '] <:+: piece ++ ' ' :: rest := by
  induction piece with
  | nil =>
      rw [List.nil_append, List.infix_cons_iff, not_or]
      refine ⟨fun h => ?_, hrest⟩
      obtain ⟨-, tail, htail⟩ := List.cons_prefix_cons.mp h
      exact hhead (by rw [← htail]; rfl)
  | cons c piece ih =>
      rw [List.mem_cons, not_or] at hpiece
      rw [List.cons_append, List.infix_cons_iff, not_or]
      exact ⟨fun h => hpiece.1 (List.cons_prefix_cons.mp h).1, ih hpiece.2⟩

theorem singleSpaced_piece {piece : List Char} (h : ∀ c ∈ piece, isBlank c = false) :
    Text.SingleSpaced piece := by
  have hspace : ' ' ∉ piece := fun hmem => absurd (h ' ' hmem) (by decide)
  exact {
    only_spaces := fun c hc hblank => by
      rw [h c hc] at hblank
      cases hblank
    not_doubled := fun hspaces => hspace (hspaces.subset (by simp))
    not_leading := fun hhead => hspace (List.mem_of_head? hhead)
    not_trailing := fun hlast => hspace (List.mem_of_getLast? hlast) }

/-- In front of a single-spaced text that is not empty, a word and a space can stand. -/
theorem singleSpaced_append {piece rest : List Char} (hne : piece ≠ [])
    (h : ∀ c ∈ piece, isBlank c = false) (hrest : Text.SingleSpaced rest) (hrest_ne : rest ≠ []) :
    Text.SingleSpaced (piece ++ ' ' :: rest) := by
  have hpiece := singleSpaced_piece h
  have hspace : ' ' ∉ piece := fun hmem => absurd (h ' ' hmem) (by decide)
  refine ⟨fun c hc hblank => ?_, not_doubled_append hspace hrest.not_doubled hrest.not_leading,
    ?_, ?_⟩
  · rw [List.mem_append, List.mem_cons] at hc
    rcases hc with hc | rfl | hc
    · exact hpiece.only_spaces c hc hblank
    · rfl
    · exact hrest.only_spaces c hc hblank
  · rw [List.head?_append_of_ne_nil _ hne]
    exact hpiece.not_leading
  · obtain ⟨c, cs, rfl⟩ := List.exists_cons_of_ne_nil hrest_ne
    rw [List.getLast?_append_of_ne_nil _ (List.cons_ne_nil _ _), List.getLast?_cons_cons]
    exact hrest.not_trailing

/-- Words with single spaces between them are single-spaced. -/
theorem singleSpaced_intercalate {pieces : List (List Char)}
    (h : ∀ piece ∈ pieces, piece ≠ [] ∧ ∀ c ∈ piece, isBlank c = false) :
    Text.SingleSpaced ([' '].intercalate pieces) := by
  induction pieces with
  | nil => exact singleSpaced_piece (by simp)
  | cons piece pieces ih =>
      rw [List.forall_mem_cons] at h
      obtain ⟨⟨hne, hletters⟩, hrest⟩ := h
      cases pieces with
      | nil =>
          rw [List.intercalate_singleton]
          exact singleSpaced_piece hletters
      | cons other pieces =>
          have hother : [' '].intercalate (other :: pieces) ≠ [] := by
            cases pieces <;> simp [(hrest other List.mem_cons_self).1]
          rw [List.intercalate_cons_cons, List.append_assoc, List.singleton_append]
          exact singleSpaced_append hne hletters (ih hrest) hother

end DocComment

/-! ## Summaries -/

namespace Symbol

open DocComment

/-- **A doc summary is read line by line**: a closed comment encloses one text, and its summary is
made of the words of the lines of that text, each without the star run at its head. There is none
if there are no words, and a summary has no white space but single spaces between words. -/
theorem docSummary_by_lines (s : Symbol) {doc : String} (hdoc : s.docComment = some doc)
    (hopen : ['/', '*'] <+: Text.trim doc.toList) (hclose : ['*', '/'] <:+ Text.trim doc.toList)
    (hlen : 4 ≤ (Text.trim doc.toList).length) :
    ∃ inner, Encloses (Text.trim doc.toList) inner ∧
      (∀ other, Encloses (Text.trim doc.toList) other → other = inner) ∧
      s.docSummary? =
        (if lineWords inner = [] then none
          else some (String.ofList ([' '].intercalate (lineWords inner)))) ∧
      ∀ summary ∈ s.docSummary?, Text.SingleSpaced summary.toList := by
  obtain ⟨inner, hinner⟩ := exists_encloses hopen hclose hlen
  have hbody := closedBody?_of_encloses hinner
  have hwords : summaryWords doc = (lineWords inner).map String.ofList := by
    rw [summaryWords, body, hbody]
    exact congrArg (List.map String.ofList) (words_indent inner [] (by simp))
  have hsummary : s.docSummary? = if lineWords inner = [] then none
      else some (String.ofList ([' '].intercalate (lineWords inner))) := by
    rw [docSummary?, hdoc, Option.elim_some, hwords]
    cases lineWords inner with
    | nil => rfl
    | cons word words =>
        simp only [List.map_cons, reduceCtorEq, if_false]
        refine congrArg some (String.toList_inj.mp ?_)
        simp [String.toList_intercalate]
  refine ⟨inner, hinner, fun other hother => ?_, hsummary, fun summary hs => ?_⟩
  · rw [closedBody?_of_encloses hother] at hbody
    exact Option.some.inj hbody
  · rw [hsummary] at hs
    split at hs
    · cases hs
    · cases hs
      rw [String.toList_ofList]
      refine singleSpaced_intercalate fun word hword => ?_
      obtain ⟨line, -, hline⟩ := List.mem_flatMap.mp hword
      rw [← Text.words_eq] at hline
      exact Text.mem_words hline

/-- A comment with a blank line, a line of stars only, and stars inside of a line. -/
theorem docSummary_of_starred_lines :
    let doc := "/**\n * Reads  it.\n\n *\n ** a * b\n *****/"
    let s : Symbol := { (default : Symbol) with docComment := some doc }
    s.docSummary? = some "Reads it. a * b" ∧
      ∃ inner, Encloses (Text.trim doc.toList) inner ∧
        (∀ other, Encloses (Text.trim doc.toList) other → other = inner) ∧
        s.docSummary? =
          (if lineWords inner = [] then none
            else some (String.ofList ([' '].intercalate (lineWords inner)))) ∧
        ∀ summary ∈ s.docSummary?, Text.SingleSpaced summary.toList := by
  intro doc s
  have hopen : ['/', '*'] <+: Text.trim doc.toList := by decide +kernel
  have hclose : ['*', '/'] <:+ Text.trim doc.toList := by decide +kernel
  have hlen : 4 ≤ (Text.trim doc.toList).length := by decide +kernel
  exact ⟨by decide +kernel, docSummary_by_lines s rfl hopen hclose hlen⟩

end Symbol

end DeclTags
