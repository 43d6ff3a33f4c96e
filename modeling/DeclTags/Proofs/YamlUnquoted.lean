import DeclTags.Proofs.YamlQuotes

set_option autoImplicit false

/-! # Plain scalars and blocks read back

A plain scalar ends where the colon of a key follows or where the next line is not indented further
than the collection around it. A block is read line by line, a line being what stands between two
runs of breaks: `BlockLine` has a line along with the breaks behind it, and `exists_blockLines` says
that a text is some breaks and then such lines.
-/

namespace DeclTags.Yaml.Scalar

/-! ## Plain scalars -/

/-- A text that is not marked inside is not marked inside behind its first character either. -/
theorem isMarkedInside_cons {c d : Char} {cs : List Char}
    (h : isMarkedInside (c :: d :: cs) = false) :
    (c = ':' → isGap d = false) ∧ (isGap c = true → d ≠ '#')
      ∧ isMarkedInside (d :: cs) = false := by
  rw [isMarkedInside, hasPair_cons _ _ c, hasPair_cons _ _ c, List.getLast?_cons_cons] at h
  rw [isMarkedInside]
  simp only [List.head?_cons, Option.any_some, Bool.or_eq_false_iff, Bool.and_eq_false_iff,
    decide_eq_false_iff_not] at h ⊢
  obtain ⟨⟨⟨hcolon, hcolons⟩, hlast⟩, hsign, hsigns⟩ := h
  refine ⟨fun hc => ?_, fun hc hd => ?_, ⟨hcolons, hlast⟩, hsigns⟩
  · exact hcolon.resolve_left fun h => h hc
  · rcases hsign with hsign | hsign
    · rw [hc] at hsign
      cases hsign
    · exact hsign hd

variable {r : Reading} {before : List Char}

theorem plain_space (indent : Nat) (r : Reading) (p : Place) (rest : List Char) :
    plain false indent r p (' ' :: rest) = plain false indent (r.addGap ' ') (p.step ' ') rest := by
  rw [plain, if_pos (by decide), if_neg (by simp)]

theorem plain_spaces (indent n : Nat) (r : Reading) (p : Place) (rest : List Char) :
    plain false indent r p (spaces n ++ rest)
      = plain false indent { r with gap := spaces n ++ r.gap } (p.advance (spaces n)) rest := by
  induction n generalizing r p with
  | zero => rfl
  | succ n ih =>
    have hgap : spaces n ++ ' ' :: r.gap = spaces (n + 1) ++ r.gap := by
      simp [spaces, List.replicate_succ', List.append_assoc]
    rw [spaces_succ, List.cons_append, plain_space, ih, Place.advance_cons, ← spaces_succ,
      Reading.addGap, hgap]

/-- A character of a plain scalar, which goes on behind a colon. -/
theorem plain_char (hread : r.HasRead false before) {indent : Nat} {p : Place} {c : Char}
    {rest : List Char} (hc : isGap c = false) (hgap : r.gap ≠ [] → c ≠ '#' ∧ 0 < p.column)
    (hcolon : c = ':' → atGap rest = false) :
    plain false indent r p (c :: rest)
      = plain false indent ⟨(before ++ [c]).reverse, [], false⟩ (p.step c) rest := by
  have hends : plainEnds? false (c :: rest) = some false := by
    rw [plainEnds?]
    by_cases hc : c = ':'
    · simp [hcolon hc]
    · simp [hc]
  have hstays : (!r.gap.isEmpty && (decide (c = '#')
      || (decide (p.column = 0) && atMarker (c :: rest))
      || (!false && decide (p.column < indent) && r.gap.any isBreak))) = false := by
    cases hread with
    | @inLine read gap hspaces =>
      have hbreaks : gap.any isBreak = false := by
        rw [List.any_eq_false]
        intro d hd
        rw [hspaces d hd]
        decide
      cases gap with
      | nil => rfl
      | cons d gap =>
        obtain ⟨hsign, hcolumn⟩ := hgap (List.cons_ne_nil d gap)
        simp [hsign, hbreaks, Nat.ne_of_gt hcolumn]
  rw [plain, if_neg (by simp [hc]), hstays, if_neg (by decide), hends, hread.put_inLine]

/-- The text of a plain scalar, of which `before` was read. -/
theorem plain_text {indent : Nat} (tail : List Char) {cs : List Char} (hne : cs ≠ [])
    (hprintable : cs.all (fun c => isPrintable c && !isBreak c) = true)
    (hinside : isMarkedInside cs = false) (hlast : cs.getLast?.any isSpaceChar = false) :
    ∀ {r : Reading} {before : List Char} (p : Place), r.HasRead false before →
      (r.gap ≠ [] → cs.head? ≠ some '#' ∧ 0 < p.column) →
      plain false indent r p (cs ++ tail)
        = plain false indent ⟨(before ++ cs).reverse, [], false⟩ (p.advance cs) tail := by
  induction cs with
  | nil => exact absurd rfl hne
  | cons c cs ih =>
    intro r before p hread hgap
    simp only [List.all_cons, Bool.and_eq_true, Bool.not_eq_true'] at hprintable
    obtain ⟨⟨hc, hbreak⟩, hprintable⟩ := hprintable
    have hcolumn : 0 < (p.step c).column := by
      rw [Place.step_of_not_isBreak hbreak]
      exact Nat.succ_pos _
    have htext : before ++ c :: cs = before ++ [c] ++ cs := by simp
    rw [htext, List.cons_append, Place.advance_cons]
    cases cs with
    | nil =>
      -- The last character is neither a space nor a colon.
      have hspace : c ≠ ' ' := by simpa [isSpaceChar] using hlast
      have hcolon : c ≠ ':' := by
        rintro rfl
        exact absurd hinside (by decide)
      have hgapHere : isGap c = false := Bool.eq_false_iff.mpr fun h =>
        hspace (eq_space_of_isGap h hc hbreak)
      rw [plain_char hread hgapHere (by simpa using hgap) fun h => absurd h hcolon]
      simp
    | cons d ds =>
      obtain ⟨hcolon, hsign, hinside⟩ := isMarkedInside_cons hinside
      rw [List.getLast?_cons_cons] at hlast
      have ih := @ih (List.cons_ne_nil d ds) hprintable hinside hlast
      by_cases hspace : c = ' '
      · subst hspace
        have hhead : (d :: ds).head? ≠ some '#' := by simpa using hsign (by decide)
        rw [plain_space]
        exact ih _ hread.space fun _ => ⟨hhead, hcolumn⟩
      · have hgapHere : isGap c = false := Bool.eq_false_iff.mpr fun h =>
          hspace (eq_space_of_isGap h hc hbreak)
        rw [plain_char hread hgapHere (by simpa using hgap)
          fun h => by simpa [atGap] using hcolon h]
        exact ih _ (Reading.hasRead_reverse _) fun h => absurd rfl h

theorem plain_allowed {cs : List Char} (hne : cs ≠ []) (hcs : allowsPlain cs = true) (indent : Nat)
    (p : Place) (tail : List Char) :
    plain false indent {} p (cs ++ tail)
      = plain false indent ⟨cs.reverse, [], false⟩ (p.advance cs) tail := by
  simp only [allowsPlain, Bool.and_eq_true, Bool.not_eq_true'] at hcs
  obtain ⟨⟨⟨⟨hprintable, -⟩, hinside⟩, -⟩, hlast⟩ := hcs
  exact plain_text tail hne hprintable hinside hlast p (Reading.hasRead_reverse []) fun h =>
    absurd rfl h

/-- The value of a key, behind which a line begins that is not indented further than `indent`
says. -/
theorem plain_line {indent j : Nat} (hj : j < indent) {cs rest : List Char} (hne : cs ≠ [])
    (hcs : allowsPlain cs = true) (hrest : BeginsLine rest) (p : Place) :
    plain false indent {} p (cs ++ '\n' :: (spaces j ++ rest))
      = some (⟨cs.reverse, spaces j ++ ['\n'], false⟩,
          ⟨p.advance (cs ++ '\n' :: spaces j), rest⟩) := by
  have hfeed : isGap '\n' = true := by decide
  have hfeed' : ('\n' : Char) ≠ '\t' := by decide
  rw [plain_allowed hne hcs, plain, if_pos hfeed, if_neg (by simp [hfeed']), plain_spaces,
    Reading.addGap]
  have hplace : (((p.advance cs).step '\n').advance (spaces j))
      = p.advance (cs ++ '\n' :: spaces j) := by
    rw [Place.advance_append, Place.advance_cons]
  have hcolumn : (p.advance (cs ++ '\n' :: spaces j)).column = j := by
    rw [← hplace]
    exact column_advance_spaces j (Place.step_of_isBreak (by decide))
  rw [hplace]
  cases rest with
  | nil => rfl
  | cons c rest =>
    rw [plain, if_neg (by simp [hrest.isGap_eq_false]), if_pos]
    have hbreak : isBreak '\n' = true := by decide
    simp [hcolumn, hj, hbreak]

/-- A key, behind which its colon follows. -/
theorem plain_key (indent : Nat) {cs rest : List Char} (hne : cs ≠ [])
    (hcs : allowsPlain cs = true) (hrest : atGap rest = true) (p : Place) :
    plain false indent {} p (cs ++ ':' :: rest)
      = some (⟨cs.reverse, [], false⟩, ⟨p.advance cs, ':' :: rest⟩) := by
  have hcolon : isGap ':' = false := by decide
  have hends : plainEnds? false (':' :: rest) = some true := by
    rw [plainEnds?]
    simp [hrest]
  rw [plain_allowed hne hcs, plain, if_neg (by simp [hcolon]), if_neg (by simp), hends]

/-! ## Lines of a block -/

/-- A line of a block and the breaks behind it, at least one. -/
structure BlockLine where
  text : List Char
  lastBreak : Char
  breaks : List Char
  text_ne : text ≠ []
  isBreak_text : ∀ c ∈ text, isBreak c = false
  isBreak_lastBreak : isBreak lastBreak = true
  isBreak_breaks : ∀ c ∈ breaks, isBreak c = true

namespace BlockLine

def chars (l : BlockLine) : List Char := l.text ++ l.lastBreak :: l.breaks

def written (indent : Nat) (l : BlockLine) : List Char := spaces indent ++ l.chars

end BlockLine

/-- A text that ends with a break is some breaks and then lines. The induction is on the text, whose
first character belongs to the breaks or to the first line. -/
theorem exists_blockLines {cs : List Char} (h : cs = [] ∨ cs.getLast?.any isBreak = true) :
    ∃ (breaks : List Char) (lines : List BlockLine),
      (∀ b ∈ breaks, isBreak b = true) ∧ cs = breaks ++ lines.flatMap BlockLine.chars := by
  induction cs with
  | nil => exact ⟨[], [], by simp, rfl⟩
  | cons c cs ih =>
    have h := h.resolve_left (List.cons_ne_nil c cs)
    have hbehind : cs = [] ∨ cs.getLast?.any isBreak = true := by
      cases cs with
      | nil => exact .inl rfl
      | cons d cs => exact .inr (by rwa [List.getLast?_cons_cons] at h)
    obtain ⟨breaks, lines, hbreaks, rfl⟩ := ih hbehind
    by_cases hc : isBreak c = true
    · refine ⟨c :: breaks, lines, fun b hb => ?_, rfl⟩
      rcases List.mem_cons.mp hb with rfl | hb
      · exact hc
      · exact hbreaks b hb
    · have hc : isBreak c = false := Bool.eq_false_iff.mpr hc
      cases breaks with
      | cons b bs =>
        let line : BlockLine :=
          { text := [c], lastBreak := b, breaks := bs, text_ne := List.cons_ne_nil c []
            isBreak_text := by simpa using hc
            isBreak_lastBreak := hbreaks b List.mem_cons_self
            isBreak_breaks := fun d hd => hbreaks d (List.mem_cons_of_mem b hd) }
        exact ⟨[], line :: lines, by simp, rfl⟩
      | nil =>
        cases lines with
        | nil => simp [hc] at h
        | cons l lines =>
          let line : BlockLine :=
            { l with
              text := c :: l.text
              text_ne := List.cons_ne_nil c l.text
              isBreak_text := fun d hd => by
                rcases List.mem_cons.mp hd with rfl | hd
                · exact hc
                · exact l.isBreak_text d hd }
          exact ⟨[], line :: lines, by simp, rfl⟩

/-! ### Writing -/

theorem blockBody_breaks {breaks : List Char} (h : ∀ b ∈ breaks, isBreak b = true) (indent : Nat)
    (cs : List Char) :
    blockBody indent true (breaks ++ cs) = breaks ++ blockBody indent true cs := by
  induction breaks with
  | nil => rfl
  | cons b breaks ih =>
    rw [List.cons_append, blockBody, if_pos (h b List.mem_cons_self),
      ih fun d hd => h d (List.mem_cons_of_mem b hd), List.cons_append]

theorem blockBody_text {text : List Char} (h : ∀ c ∈ text, isBreak c = false) (indent : Nat)
    (cs : List Char) :
    blockBody indent false (text ++ cs) = text ++ blockBody indent false cs := by
  induction text with
  | nil => rfl
  | cons c text ih =>
    rw [List.cons_append, blockBody, if_neg (by simp [h c List.mem_cons_self]),
      ih fun d hd => h d (List.mem_cons_of_mem c hd)]
    rfl

theorem blockBody_line (indent : Nat) (l : BlockLine) (cs : List Char) :
    blockBody indent true (l.chars ++ cs) = l.written indent ++ blockBody indent true cs := by
  obtain ⟨text, b, breaks, hne, htext, hb, hbreaks⟩ := l
  cases text with
  | nil => exact absurd rfl hne
  | cons c text =>
    have htext' : ∀ d ∈ text, isBreak d = false := fun d hd => htext d (List.mem_cons_of_mem c hd)
    simp only [BlockLine.written, BlockLine.chars, List.cons_append, List.append_assoc]
    rw [blockBody, if_neg (by simp [htext c List.mem_cons_self]), blockBody_text htext',
      blockBody, if_pos hb, blockBody_breaks hbreaks, if_pos rfl]

theorem blockBody_lines {breaks : List Char} (h : ∀ b ∈ breaks, isBreak b = true) (indent : Nat)
    (lines : List BlockLine) :
    blockBody indent true (breaks ++ lines.flatMap BlockLine.chars)
      = breaks ++ lines.flatMap (BlockLine.written indent) := by
  rw [blockBody_breaks h]
  congr 1
  induction lines with
  | nil => rfl
  | cons l lines ih => rw [List.flatMap_cons, List.flatMap_cons, blockBody_line, ih]

/-! ### Reading -/

theorem emptyLines?_spaces {indent : Option Nat} {n : Nat} (read : List Char) (widest : Nat)
    (rest : List Char) {p : Place} (hp : indent.all (p.column + n ≤ ·) = true) :
    emptyLines? indent read widest p (spaces n ++ rest)
      = emptyLines? indent read widest (p.advance (spaces n)) rest := by
  induction n generalizing p with
  | zero => rfl
  | succ n ih =>
    have hcolumn : (p.step ' ').column = p.column + 1 := Place.step_of_not_isBreak (by decide)
    have hinside : indent.all (p.column < ·) = true := by
      cases indent with
      | none => rfl
      | some indent =>
        simp only [Option.all_some, decide_eq_true_eq] at hp ⊢
        omega
    have hnext : indent.all ((p.step ' ').column + n ≤ ·) = true := by
      rw [hcolumn, Nat.add_right_comm, Nat.add_assoc]
      exact hp
    rw [spaces_succ, List.cons_append, emptyLines?, if_pos (by simp [hinside]), if_pos rfl,
      ih hnext, Place.advance_cons]

/-- Breaks and the indentation of the line behind them, which is at most `indent`. -/
theorem emptyLines?_given {indent n : Nat} (hn : n ≤ indent) {text : List Char}
    (htext : text.head?.any isBreak = false)
    (hblank : n < indent → text.head?.any isBlank = false) {breaks : List Char}
    (hbreaks : ∀ b ∈ breaks, isBreak b = true) :
    ∀ (read : List Char) (widest : Nat) {p : Place}, p.column = 0 → ∃ widest',
      emptyLines? (some indent) read widest p (breaks ++ (spaces n ++ text))
        = some ⟨read.reverse ++ breaks, widest', ⟨p.advance (breaks ++ spaces n), text⟩⟩ := by
  induction breaks with
  | nil =>
    intro read widest p hp
    have hcolumn : (p.advance (spaces n)).column = n := column_advance_spaces n hp
    rw [List.nil_append, List.nil_append, List.append_nil,
      emptyLines?_spaces _ _ _ (by simpa [hp] using hn)]
    cases text with
    | nil => exact ⟨_, rfl⟩
    | cons c text =>
      have hbreak : isBreak c = false := by simpa using htext
      have hstays : ((c = ' ' || c = '\t') && (some indent).all ((p.advance (spaces n)).column < ·))
          = false := by
        rw [hcolumn, Option.all_some]
        by_cases hlt : n < indent
        · have hc : isBlank c = false := by simpa using hblank hlt
          rw [isBlank] at hc
          rw [hc, Bool.false_and]
        · rw [decide_eq_false hlt, Bool.and_false]
      rw [emptyLines?, hstays, if_neg (by decide), if_neg (by simp [hbreak])]
      exact ⟨_, rfl⟩
  | cons b breaks ih =>
    intro read widest p _
    have hb := hbreaks b List.mem_cons_self
    have hblankBreak : (b = ' ' || b = '\t') = false := by
      rw [Bool.eq_false_iff]
      intro h
      simp only [Bool.or_eq_true, decide_eq_true_eq] at h
      rcases h with rfl | rfl <;> exact absurd hb (by decide)
    obtain ⟨widest', h⟩ := ih (fun d hd => hbreaks d (List.mem_cons_of_mem b hd)) (b :: read)
      (max widest p.column) (Place.step_of_isBreak (p := p) hb)
    refine ⟨widest', ?_⟩
    rw [List.cons_append, emptyLines?, hblankBreak, Bool.false_and, if_neg (by decide),
      if_pos hb, h]
    simp

/-- Behind breaks and `n` spaces is column `n`. -/
theorem column_advance_breaks {breaks : List Char} (h : ∀ b ∈ breaks, isBreak b = true) (n : Nat)
    {p : Place} (hp : p.column = 0) : (p.advance (breaks ++ spaces n)).column = n := by
  induction breaks generalizing p with
  | nil => exact column_advance_spaces n hp
  | cons b breaks ih =>
    exact ih (fun d hd => h d (List.mem_cons_of_mem b hd))
      (Place.step_of_isBreak (h b List.mem_cons_self))

/-- Without an indentation, that of the first line is found. -/
theorem emptyLines?_found {c : Char} (hc : isGap c = false) (n : Nat) (text : List Char)
    {p : Place} (hp : p.column = 0) :
    emptyLines? none [] 0 p (spaces n ++ c :: text)
      = some ⟨[], n, ⟨p.advance (spaces n), c :: text⟩⟩ := by
  rw [isGap, Bool.or_eq_false_iff, isBlank] at hc
  rw [emptyLines?_spaces _ _ _ (by simp), emptyLines?, hc.1, Bool.false_and, if_neg (by decide),
    if_neg (by simp [hc.2]), column_advance_spaces n hp]
  simp

/-- A reader of a block behind one more line. -/
def BlockReading.after (b : BlockReading) (l : BlockLine) : BlockReading :=
  { read := l.text.reverse ++ ((b.lastBreak ++ b.breaks).reverse ++ b.read)
    lastBreak := [l.lastBreak]
    breaks := l.breaks
    blankLine := l.text.head?.any isBlank }

/-- One line of a block, behind which the empty lines are known. -/
theorem blockLines_line {indent : Nat} (b : BlockReading) (l : BlockLine) {more : List Char}
    {p : Place} (hp : p.column = indent) {found : EmptyLines}
    (hfound : emptyLines? (some indent) [] 0 ((p.advance l.text).step l.lastBreak)
      (l.breaks ++ more) = some found) (hbreaks : found.breaks = l.breaks) :
    blockLines false indent b ⟨p, l.chars ++ more⟩
      = blockLines false indent (b.after l) found.next := by
  obtain ⟨text, last, breaks, hne, htext, hlast, hends⟩ := l
  cases text with
  | nil => exact absurd rfl hne
  | cons c text =>
    have hafter : Input.afterClass (fun d => !isBreak d) p
        (c :: (text ++ last :: (breaks ++ more)))
        = ⟨p.advance (c :: text), last :: (breaks ++ more)⟩ :=
      Input.afterClass_append p (c :: text) (fun d hd => by simp [htext d hd])
        (by simp [hlast])
    have hline : (c :: (text ++ last :: (breaks ++ more))).takeWhile (fun d => !isBreak d)
        = c :: text := by
      have htake : (c :: text ++ last :: (breaks ++ more)).takeWhile (fun d => !isBreak d)
          = c :: text ++ (last :: (breaks ++ more)).takeWhile (fun d => !isBreak d) :=
        List.takeWhile_append_of_pos fun d hd => by simp [htext d hd]
      rw [List.takeWhile_cons_of_neg (a := last) (by simp [hlast]), List.append_nil] at htake
      exact htake
    rw [blockLines.eq_def]
    simp only [BlockLine.chars, List.cons_append, List.append_assoc, hp, ne_eq, not_true_eq_false,
      if_false, hafter, hline]
    split
    · rename_i hnone
      rw [List.append_assoc, List.cons_append, hafter] at hnone
      exact absurd (hfound.symm.trans hnone) (by simp)
    · rename_i found' hsome
      rw [List.append_assoc, List.cons_append, hafter] at hsome
      obtain rfl : found = found' := Option.some.inj (hfound.symm.trans hsome)
      simp [BlockReading.after, BlockReading.joint, hbreaks]

/-- The block ends in any other column. -/
theorem blockLines_end {indent : Nat} (b : BlockReading) {p : Place} (hp : p.column ≠ indent)
    (rest : List Char) : blockLines false indent b ⟨p, rest⟩ = some (b, ⟨p, rest⟩) := by
  rw [blockLines.eq_def]
  cases rest with
  | nil => rfl
  | cons c rest => exact if_pos hp

/-- The lines of a block behind some breaks, up to the indentation of the line that follows. The
induction is on the lines; what stands before each of them is read along with the line before. -/
theorem blockLines_written {indent j : Nat} (hj : j < indent) {rest : List Char}
    (hrest : BeginsLine rest) (lines : List BlockLine) :
    ∀ {breaks : List Char} {p : Place}, (∀ b ∈ breaks, isBreak b = true) → p.column = 0 →
      ∃ found,
        emptyLines? (some indent) [] 0 p
            (breaks ++ (lines.flatMap (BlockLine.written indent) ++ (spaces j ++ rest)))
          = some found ∧ found.breaks = breaks ∧
        ∀ b, blockLines false indent b found.next
          = some (lines.foldl BlockReading.after b,
              ⟨p.advance (breaks ++ (lines.flatMap (BlockLine.written indent) ++ spaces j)),
                rest⟩) := by
  induction lines with
  | nil =>
    intro breaks p hbreaks hp
    have hbreak : rest.head?.any isBreak = false := by
      cases rest with
      | nil => rfl
      | cons c rest => simpa using hrest.isBreak_eq_false
    have hblank : rest.head?.any isBlank = false := by
      cases rest with
      | nil => rfl
      | cons c rest =>
        have hc := hrest.isGap_eq_false
        rw [isGap, Bool.or_eq_false_iff] at hc
        simpa using hc.1
    obtain ⟨widest, hfound⟩ := emptyLines?_given (Nat.le_of_lt hj) hbreak (fun _ => hblank) hbreaks
      [] 0 hp
    refine ⟨_, hfound, rfl, fun b => ?_⟩
    have hcolumn := column_advance_breaks hbreaks j hp
    exact blockLines_end b (by omega) rest
  | cons l lines ih =>
    intro breaks p hbreaks hp
    have hbreak : (l.chars ++ (lines.flatMap (BlockLine.written indent) ++
        (spaces j ++ rest))).head?.any isBreak = false := by
      obtain ⟨text, last, behind, hne, htext, -, -⟩ := l
      cases text with
      | nil => exact absurd rfl hne
      | cons c text => simpa [BlockLine.chars] using htext c List.mem_cons_self
    obtain ⟨widest, hfound⟩ := emptyLines?_given (Nat.le_refl indent) hbreak
      (fun h => absurd h (Nat.lt_irrefl _)) hbreaks [] 0 hp
    have hcolumn := column_advance_breaks hbreaks indent hp
    obtain ⟨found, hnext, hnextBreaks, hlines⟩ := ih l.isBreak_breaks
      (Place.step_of_isBreak (p := (p.advance (breaks ++ spaces indent)).advance l.text)
        l.isBreak_lastBreak)
    refine ⟨_, by
      rw [List.flatMap_cons, BlockLine.written, List.append_assoc, List.append_assoc]
      exact hfound, rfl, fun b => ?_⟩
    rw [blockLines_line b l hcolumn hnext hnextBreaks, hlines]
    simp [BlockLine.written, BlockLine.chars, Place.advance_append]

/-! ### What was read -/

/-- What a reader has read with all the breaks behind it. -/
def BlockReading.chars (b : BlockReading) : List Char :=
  b.read.reverse ++ (b.lastBreak ++ b.breaks)

theorem chars_foldl_after (lines : List BlockLine) (b : BlockReading) :
    (lines.foldl BlockReading.after b).chars = b.chars ++ lines.flatMap BlockLine.chars := by
  induction lines generalizing b with
  | nil => simp
  | cons l lines ih =>
    rw [List.foldl_cons, ih, List.flatMap_cons, ← List.append_assoc]
    congr 1
    simp [BlockReading.chars, BlockReading.after, BlockLine.chars]

/-- A text that ends with a single break is read up to that break. -/
theorem ends_foldl_after {breaks front : List Char} {lines : List BlockLine} {x c : Char}
    (hbreaks : ∀ b ∈ breaks, isBreak b = true) (hx : isBreak x = false)
    (h : breaks ++ lines.flatMap BlockLine.chars = front ++ [x] ++ [c]) :
    let b := lines.foldl BlockReading.after { breaks }
    b.read.reverse = front ++ [x] ∧ b.lastBreak = [c] := by
  intro b
  have hall : b.chars = front ++ [x] ++ [c] := by
    rw [← h]
    exact chars_foldl_after lines { breaks }
  rcases List.eq_nil_or_concat lines with rfl | ⟨init, l, rfl⟩
  · -- There is more than breaks.
    have hmem : x ∈ breaks := by
      rw [List.flatMap_nil, List.append_nil] at h
      simp [h]
    rw [hbreaks x hmem] at hx
    cases hx
  · have hlast : b.lastBreak = [l.lastBreak] ∧ b.breaks = l.breaks := by
      simp only [b, List.concat_eq_append, List.foldl_append]
      exact ⟨rfl, rfl⟩
    rw [BlockReading.chars, hlast.1, hlast.2] at hall
    rcases List.eq_nil_or_concat l.breaks with hnil | ⟨others, d, hconcat⟩
    · rw [hnil, List.append_nil] at hall
      obtain ⟨hread, hc⟩ := List.append_inj' hall rfl
      exact ⟨hread, hlast.1.trans hc⟩
    · -- A second break would stand where `x` stands.
      rw [hconcat, List.concat_eq_append, ← List.append_assoc, ← List.append_assoc] at hall
      obtain ⟨hfront, -⟩ := List.append_inj' hall rfl
      have hmem : x ∈ l.lastBreak :: others := by
        have hlast' : (l.lastBreak :: others).getLast? = some x := by
          have hlasts := congrArg List.getLast? hfront
          rw [List.append_assoc, List.singleton_append, List.getLast?_append,
            List.getLast?_concat] at hlasts
          rwa [List.getLast?_cons, Option.some_or, ← List.getLast?_cons] at hlasts
        exact List.mem_of_getLast? hlast'
      have hbreak : isBreak x = true := by
        rcases List.mem_cons.mp hmem with rfl | hmem
        · exact l.isBreak_lastBreak
        · exact l.isBreak_breaks x (by rw [hconcat]; simp [hmem])
      rw [hbreak] at hx
      cases hx

/-! ## Blocks -/

/-- The mark of a header, by the end of the text. -/
inductive MarkOf (cs : List Char) : Chomping → List Char → Prop
  | strip (hline : endLine cs = cs ++ ['\n']) {front : List Char} {x : Char}
      (hcs : cs = front ++ [x]) (hx : isBreak x = false) : MarkOf cs .strip ['-']
  | clip (hline : endLine cs = cs) {front : List Char} {x c : Char}
      (hcs : cs = front ++ [x] ++ [c]) (hx : isBreak x = false) : MarkOf cs .clip []
  | keep (hline : endLine cs = cs) : MarkOf cs .keep ['+']

/-- Whether the indentation is written in the header. -/
def isHinted (cs : List Char) : Bool := cs.head?.any fun c => isSpaceChar c || isBreak c

theorem exists_markOf {cs : List Char} (hne : cs ≠ []) :
    ∃ chomping mark, MarkOf cs chomping mark ∧
      blockHints cs = (if isHinted cs then ['2'] else []) ++ mark := by
  obtain ⟨front, c, rfl⟩ : ∃ front c, cs = front ++ [c] :=
    ⟨cs.dropLast, cs.getLast hne, (List.dropLast_concat_getLast hne).symm⟩
  rw [blockHints, ← isHinted, List.reverse_append]
  simp only [List.reverse_singleton, List.singleton_append]
  by_cases hc : isBreak c = true
  · have hline : endLine (front ++ [c]) = front ++ [c] := by
      simp [endLine, hc]
    rcases List.eq_nil_or_concat front with rfl | ⟨others, x, rfl⟩
    · exact ⟨.keep, ['+'], .keep hline, by simp [hc]⟩
    · rw [List.concat_eq_append] at hline ⊢
      by_cases hx : isBreak x = true
      · exact ⟨.keep, ['+'], .keep hline, by simp [hc, hx]⟩
      · exact ⟨.clip, [], .clip hline rfl (Bool.eq_false_iff.mpr hx), by simp [hc, hx]⟩
  · have hc : isBreak c = false := Bool.eq_false_iff.mpr hc
    refine ⟨.strip, ['-'], .strip ?_ rfl hc, by simp [hc]⟩
    simp [endLine, hc]

/-- The header is read up to its line's end. -/
theorem blockHeader?_hints {cs : List Char} {chomping : Chomping} {mark : List Char}
    (hmark : MarkOf cs chomping mark) (hinted : Bool) (rest : List Char) :
    let hints := (if hinted then ['2'] else []) ++ mark
    blockHeader? (hints ++ '\n' :: rest)
      = some (chomping, if hinted then some 2 else none, hints.length) := by
  cases hmark <;> cases hinted <;> rfl

theorem endLine_cons (c : Char) (cs : List Char) : ∃ ds, endLine (c :: cs) = c :: ds := by
  rw [endLine]
  split
  · exact ⟨cs, rfl⟩
  · exact ⟨cs ++ ['\n'], rfl⟩

theorem afterHeader?_line (p : Place) (rest : List Char) :
    afterHeader? ⟨p, '\n' :: rest⟩ = some ⟨p.step '\n', rest⟩ := by
  rfl

/-- Where the lines of a block begin is found with the indentation or without: without it the text
begins with a character that is not of a gap. -/
theorem emptyLines?_hinted {k : Nat} {cs more : List Char} (hprintable : cs.all isPrintable = true)
    (hne : cs ≠ []) {p : Place} (hp : p.column = 0) {found : EmptyLines}
    (hfound : emptyLines? (some (k + 2)) [] 0 p (blockBody (k + 2) true (endLine cs) ++ more)
      = some found) :
    ∃ start,
      emptyLines? (if isHinted cs then some (k + 2) else none) [] 0 p
          (blockBody (k + 2) true (endLine cs) ++ more)
        = some start ∧ start.breaks = found.breaks ∧ start.next = found.next ∧
      (if isHinted cs then some (k + 2) else none).getD (max start.widest (max (k + 1) 1))
        = k + 2 := by
  cases hhinted : isHinted cs with
  | true => exact ⟨found, hfound, rfl, rfl, rfl⟩
  | false =>
    cases cs with
    | nil => exact absurd rfl hne
    | cons c cs =>
      simp only [isHinted, List.head?_cons, Option.any_some, Bool.or_eq_false_iff, isSpaceChar,
        decide_eq_false_iff_not] at hhinted
      obtain ⟨hspace, hbreak⟩ := hhinted
      rw [List.all_cons, Bool.and_eq_true] at hprintable
      have hgap : isGap c = false := Bool.eq_false_iff.mpr fun h =>
        hspace (eq_space_of_isGap h hprintable.1 hbreak)
      obtain ⟨behind, hbehind⟩ := endLine_cons c cs
      have hbody : blockBody (k + 2) true (endLine (c :: cs)) ++ more
          = spaces (k + 2) ++ c :: (blockBody (k + 2) false behind ++ more) := by
        rw [hbehind, blockBody, if_neg (by simp [hbreak]), if_pos rfl, List.append_assoc]
        rfl
      rw [hbody] at hfound ⊢
      have hhead : (c :: (blockBody (k + 2) false behind ++ more)).head?.any isBreak = false :=
        hbreak
      have hnone : ∀ b ∈ ([] : List Char), isBreak b = true := List.forall_mem_nil _
      obtain ⟨widest, hgiven⟩ := emptyLines?_given (Nat.le_refl (k + 2)) hhead
        (fun h => absurd h (Nat.lt_irrefl _)) hnone [] 0 hp
      obtain rfl := Option.some.inj (hfound.symm.trans hgiven)
      refine ⟨_, emptyLines?_found hgap (k + 2) _ hp, rfl, rfl, ?_⟩
      simp only [Bool.false_eq_true, if_false, Option.getD_none]
      omega

theorem isBreak_getLast?_endLine (cs : List Char) :
    (endLine cs).getLast?.any isBreak = true := by
  rw [endLine]
  split
  · assumption
  · rw [List.getLast?_concat]
    decide

/-- A block is read as it was: `endLine cs` is what its lines hold, with a line feed at its end. -/
theorem block_rendered {k j : Nat} (hj : j ≤ k) {cs rest : List Char}
    (hcs : allowsBlock cs = true) (hrest : BeginsLine rest) (p : Place) :
    block false (some k)
        ⟨p, blockHints cs ++ '\n' :: (blockBody (k + 2) true (endLine cs) ++ (spaces j ++ rest))⟩
      = some (String.ofList cs,
          ⟨p.advance (blockHints cs ++ '\n' :: (blockBody (k + 2) true (endLine cs) ++ spaces j)),
            rest⟩) := by
  simp only [allowsBlock, Bool.and_eq_true, Bool.not_eq_true', List.isEmpty_eq_false_iff] at hcs
  obtain ⟨⟨⟨hne, hprintable⟩, -⟩, -⟩ := hcs
  obtain ⟨chomping, mark, hmark, hhints⟩ := exists_markOf hne
  obtain ⟨breaks, lines, hbreaks, hlines⟩ := exists_blockLines (.inr (isBreak_getLast?_endLine cs))
  have hheader := blockHeader?_hints hmark (isHinted cs)
    (blockBody (k + 2) true (endLine cs) ++ (spaces j ++ rest))
  rw [← hhints] at hheader
  have hcolumn : ((p.advance (blockHints cs)).step '\n').column = 0 :=
    Place.step_of_isBreak (by decide)
  have hbody := blockBody_lines hbreaks (k + 2) lines
  rw [← hlines] at hbody
  obtain ⟨found, hfound, hfoundBreaks, hread⟩ :=
    blockLines_written (show j < k + 2 by omega) hrest lines hbreaks hcolumn
  rw [← List.append_assoc, ← hbody] at hfound
  obtain ⟨start, hstart, hstartBreaks, hnext, hindent⟩ :=
    emptyLines?_hinted hprintable hne hcolumn hfound
  have hgiven : (if isHinted cs then some 2 else none).map ((some k).getD 0 + ·)
      = if isHinted cs then some (k + 2) else none := by
    cases isHinted cs <;> rfl
  rw [block]
  simp only [hheader, Option.bind_eq_bind, Option.bind_some, Input.skip_append,
    afterHeader?_line, hgiven, hstart, Option.elim_some, hindent, hnext, hread, hstartBreaks,
    hfoundBreaks, Option.pure_def, Option.some.injEq, Prod.mk.injEq, String.ofList_inj]
  have hall := chars_foldl_after lines { breaks }
  have hnone : ({ breaks } : BlockReading).chars = breaks := by simp [BlockReading.chars]
  rw [hnone, ← hlines] at hall
  constructor
  · cases hmark with
    | @strip hline front x hcs hx =>
      have hends := ends_foldl_after hbreaks hx (by rw [← hlines, hline, hcs])
      rw [List.append_nil, hends.1, hcs]
    | @clip hline front x c hcs hx =>
      have hends := ends_foldl_after hbreaks hx (by rw [← hlines, hline, hcs])
      rw [hends.1, hends.2, hcs]
    | keep hline =>
      rw [hline] at hall
      exact hall
  · rw [hbody, Place.advance_append p, Place.advance_cons, List.append_assoc]

end DeclTags.Yaml.Scalar
