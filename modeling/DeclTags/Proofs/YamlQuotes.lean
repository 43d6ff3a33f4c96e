import DeclTags.Proofs.YamlPlaces
import DeclTags.Yaml.Scalar
import Mathlib.Algebra.GroupWithZero.Nat

set_option autoImplicit false

/-! # Quoted scalars read back

What a scalar in quotes holds is read as the text that it was written for. In single quotes the
reader keeps what it meets of a gap until the gap ends, so that `Reading.HasRead` says of a reader
inside of the quotes which beginning of the text it has: up to a gap of spaces, or up to some breaks
of which the first one, if it is a line feed, was written twice.
-/

namespace DeclTags.Yaml.Scalar

/-! ## Gaps -/

/-- The first of some breaks as it is written. -/
def doubled (b : Char) : List Char := if b = '\n' then ['\n', '\n'] else [b]

theorem mem_doubled {b c : Char} (h : c ∈ doubled b) : c = b := by
  rw [doubled] at h
  split at h <;> simp_all

theorem filter_isBreak_spaces {cs : List Char} (h : ∀ c ∈ cs, c = ' ') :
    cs.filter isBreak = [] := by
  rw [List.filter_eq_nil_iff]
  intro c hc
  rw [h c hc]
  decide

theorem folded_of_spaces {gap : List Char} (h : ∀ c ∈ gap, c = ' ') : folded gap = gap := by
  rw [folded, filter_isBreak_spaces h]

/-- Breaks of which the first one is doubled are read as themselves, with spaces or none behind
them. -/
theorem folded_of_breaks {b : Char} {bs : List Char} (h : ∀ c ∈ b :: bs, isBreak c = true)
    (n : Nat) : folded (doubled b ++ bs ++ spaces n) = b :: bs := by
  have hbreaks : (doubled b ++ bs ++ spaces n).filter isBreak = doubled b ++ bs := by
    rw [List.filter_append, filter_isBreak_spaces fun c => eq_of_mem_spaces, List.append_nil,
      List.filter_eq_self]
    intro c hc
    rcases List.mem_append.mp hc with hc | hc
    · rw [mem_doubled hc]
      exact h b List.mem_cons_self
    · exact h c (List.mem_cons_of_mem b hc)
  rw [folded, hbreaks]
  by_cases hb : b = '\n'
  · subst hb
    rfl
  · rw [doubled, if_neg hb, List.singleton_append]
    split
    · simp_all
    · simp_all
    · simp_all
    · rfl

namespace Reading

theorem atLineStart_of_spaces {r : Reading} (h : ∀ c ∈ r.gap, c = ' ') :
    r.atLineStart = false := by
  rw [atLineStart]
  cases hgap : r.gap with
  | nil => rfl
  | cons c gap =>
    rw [h c (by rw [hgap]; exact List.mem_cons_self)]
    rfl

/-! ## Single quotes -/

/-- The reader `r` has read `cs`, which ends with some breaks or not. -/
inductive HasRead : Reading → Bool → List Char → Prop
  | inLine {read gap : List Char} (h : ∀ c ∈ gap, c = ' ') :
      HasRead ⟨read, gap, false⟩ false (read.reverse ++ gap.reverse)
  | afterBreaks {read : List Char} {b : Char} {bs : List Char}
      (h : ∀ c ∈ b :: bs, isBreak c = true) :
      HasRead ⟨read, (doubled b ++ bs).reverse, false⟩ true (read.reverse ++ b :: bs)

/-- A reader without a gap. -/
theorem hasRead_reverse (cs : List Char) : HasRead ⟨cs.reverse, [], false⟩ false cs := by
  have h : HasRead ⟨cs.reverse, [], false⟩ false (cs.reverse.reverse ++ [].reverse) :=
    .inLine (by simp)
  rwa [List.reverse_reverse, List.reverse_nil, List.append_nil] at h

/-- With the spaces that indent the next line, the gap of a reader stands for itself. -/
theorem HasRead.put {r : Reading} {afterBreak : Bool} {before : List Char}
    (h : r.HasRead afterBreak before) (indent : Nat) (cs : List Char) :
    ({ r with gap := (if afterBreak then spaces indent else []) ++ r.gap } : Reading).put cs
      = ⟨(before ++ cs).reverse, [], false⟩ := by
  cases h with
  | inLine hgap =>
    simp [Reading.put, gapText, folded_of_spaces fun c hc => hgap c (List.mem_reverse.mp hc)]
  | afterBreaks hbreaks =>
    have hfolded := folded_of_breaks hbreaks indent
    have hspaces : (spaces indent).reverse = spaces indent := List.reverse_replicate
    simp only [Reading.put, gapText, if_true, Bool.false_eq_true, if_false, List.reverse_append,
      List.reverse_reverse, hspaces] at hfolded ⊢
    rw [← List.append_assoc, hfolded]
    simp

theorem HasRead.atLineStart {r : Reading} {afterBreak : Bool} {before : List Char}
    (h : r.HasRead afterBreak before) {indent : Nat} (hindent : 0 < indent) :
    ({ r with gap := (if afterBreak then spaces indent else []) ++ r.gap } : Reading).atLineStart
      = false := by
  cases h with
  | inLine hgap => exact atLineStart_of_spaces (by simpa using hgap)
  | afterBreaks =>
    obtain ⟨n, rfl⟩ : ∃ n, indent = n + 1 := ⟨indent - 1, by omega⟩
    rfl

end Reading

/-- Not to indent is to indent by nothing. -/
theorem ite_spaces (afterBreak : Bool) (indent : Nat) :
    (if afterBreak then spaces indent else []) = spaces (if afterBreak then indent else 0) := by
  cases afterBreak <;> rfl

theorem singleQuoted_gap {c : Char} (hc : isGap c = true) (r : Reading) (p : Place)
    (rest : List Char) :
    singleQuoted r p (c :: rest) = singleQuoted (r.addGap c) (p.step c) rest := by
  rw [singleQuoted.eq_def]
  simp [hc]

theorem singleQuoted_spaces (r : Reading) (p : Place) (n : Nat) (rest : List Char) :
    singleQuoted r p (spaces n ++ rest)
      = singleQuoted { r with gap := spaces n ++ r.gap } (p.advance (spaces n)) rest := by
  induction n generalizing r p with
  | zero => rfl
  | succ n ih =>
    have hgap : spaces n ++ ' ' :: r.gap = spaces (n + 1) ++ r.gap := by
      simp [spaces, List.replicate_succ', List.append_assoc]
    rw [spaces_succ, List.cons_append, singleQuoted_gap (by decide), ih, Place.advance_cons,
      ← spaces_succ, Reading.addGap, hgap]

/-- A character that is not of a gap, doubled if it is a quote. -/
theorem singleQuoted_cons {r : Reading} {c : Char} (hline : r.atLineStart = false)
    (hc : isGap c = false) (p : Place) (rest : List Char) :
    singleQuoted r p ((if c = '\'' then ['\'', '\''] else [c]) ++ rest)
      = singleQuoted (r.put [c]) (p.advance (if c = '\'' then ['\'', '\''] else [c])) rest := by
  by_cases hquote : c = '\''
  · subst hquote
    rw [if_pos rfl, List.cons_append, List.singleton_append, singleQuoted.eq_def]
    simp [hline, hc]
  · rw [if_neg hquote, List.singleton_append, singleQuoted.eq_def]
    simp [hline, hc, hquote]

theorem singleQuoted_close {r : Reading} (hline : r.atLineStart = false) (p : Place)
    {rest : List Char} (hrest : rest.head? ≠ some '\'') :
    singleQuoted r p ('\'' :: rest) = some (r.closed, ⟨p.step '\'', rest⟩) := by
  rw [singleQuoted.eq_def]
  have hgap : isGap '\'' = false := by decide
  simp only [hgap, hline, Bool.false_eq_true, if_false, Bool.false_and, if_true]
  split
  · exact absurd rfl hrest
  · rfl

/-! ### One character of the text -/

variable {r : Reading} {before : List Char}

/-- A break goes to the gap, the first of some as it is written. -/
theorem Reading.HasRead.break {afterBreak : Bool} (h : r.HasRead afterBreak before) {c : Char}
    (hc : isBreak c = true) (hgap : afterBreak = false → r.gap = []) (p : Place) :
    ∃ r' : Reading, r'.HasRead true (before ++ [c]) ∧ ∀ rest,
      singleQuoted r p ((if !afterBreak && c = '\n' then ['\n', c] else [c]) ++ rest)
        = singleQuoted r' (p.advance (if !afterBreak && c = '\n' then ['\n', c] else [c]))
          rest := by
  cases h with
  | @inLine read gap _ =>
    obtain rfl : gap = [] := hgap rfl
    have hwritten : (if !false && decide (c = '\n') then ['\n', c] else [c]) = doubled c := by
      rw [doubled]
      by_cases hline : c = '\n' <;> simp [hline]
    refine ⟨⟨read, (doubled c ++ []).reverse, false⟩, ?_, fun rest => ?_⟩
    · have hread : HasRead ⟨read, (doubled c ++ []).reverse, false⟩ true (read.reverse ++ [c]) :=
        .afterBreaks (by simpa using hc)
      simpa using hread
    · have hlineFeed : isGap '\n' = true := by decide
      rw [hwritten, doubled]
      split
      · rw [List.cons_append, List.singleton_append, singleQuoted_gap hlineFeed,
          singleQuoted_gap hlineFeed]
        rfl
      · rw [List.singleton_append, singleQuoted_gap (isGap_of_isBreak hc)]
        rfl
  | @afterBreaks read b bs hbreaks =>
    refine ⟨⟨read, (doubled b ++ (bs ++ [c])).reverse, false⟩, ?_, fun rest => ?_⟩
    · rw [List.append_assoc, List.cons_append]
      refine .afterBreaks fun d hd => ?_
      rw [← List.cons_append, List.mem_append, List.mem_singleton] at hd
      rcases hd with hd | rfl
      · exact hbreaks d hd
      · exact hc
    · rw [Bool.not_true, Bool.false_and, if_neg (by decide), List.singleton_append,
        singleQuoted_gap (isGap_of_isBreak hc)]
      simp [Reading.addGap]

/-- A space inside of a line goes to the gap. -/
theorem Reading.HasRead.space (h : r.HasRead false before) :
    (r.addGap ' ').HasRead false (before ++ [' ']) := by
  cases h with
  | @inLine read gap hgap =>
    have : HasRead ⟨read, ' ' :: gap, false⟩ false (read.reverse ++ (' ' :: gap).reverse) :=
      .inLine (by simpa using hgap)
    simpa [Reading.addGap] using this

/-- Any other character is put behind the gap, to which the indentation of its line belongs. -/
theorem Reading.HasRead.char {afterBreak : Bool} (h : r.HasRead afterBreak before) {indent : Nat}
    (hindent : 0 < indent) {c : Char} (hc : isGap c = false) (p : Place) (rest : List Char) :
    let written := (if afterBreak then spaces indent else []) ++
      if c = '\'' then ['\'', '\''] else [c]
    singleQuoted r p (written ++ rest)
      = singleQuoted ⟨(before ++ [c]).reverse, [], false⟩ (p.advance written) rest := by
  intro written
  have hline := h.atLineStart hindent
  have hput := h.put indent [c]
  rw [ite_spaces] at hline hput
  simp only [written]
  rw [ite_spaces, List.append_assoc, singleQuoted_spaces, singleQuoted_cons hline hc, hput,
    Place.advance_append]

/-- The quote behind the text, before which the last line may be indented. -/
theorem Reading.HasRead.close {afterBreak : Bool} (h : r.HasRead afterBreak before) {indent : Nat}
    (hindent : 0 < indent) (p : Place) {rest : List Char} (hrest : rest.head? ≠ some '\'') :
    singleQuoted r p ((if afterBreak then spaces indent else []) ++ '\'' :: rest)
      = some (String.ofList before,
          ⟨(p.advance (if afterBreak then spaces indent else [])).step '\'', rest⟩) := by
  have hline := h.atLineStart hindent
  have hput := h.put indent []
  rw [ite_spaces] at hline hput ⊢
  rw [singleQuoted_spaces, singleQuoted_close hline _ hrest, Reading.closed, hput]
  simp [Reading.text]

/-! ### The whole text -/

/-- The inside of single quotes, of which `before` was read. The induction is on the rest of the
text; a gap of spaces does not go on with a break, nor breaks with a space. -/
theorem singleQuoted_body {indent : Nat} (hindent : 0 < indent) {rest : List Char}
    (hrest : rest.head? ≠ some '\'') {cs : List Char} (hprintable : cs.all isPrintable = true)
    (hspace : hasPair isSpaceChar isBreak cs = false)
    (hbreak : hasPair isBreak isSpaceChar cs = false) :
    ∀ {r : Reading} {afterBreak : Bool} {before : List Char} (p : Place),
      r.HasRead afterBreak before →
      (afterBreak = false → r.gap ≠ [] → cs.head?.any isBreak = false) →
      (afterBreak = true → cs.head?.any isSpaceChar = false) →
      singleQuoted r p (singleQuotedBody indent afterBreak cs ++ '\'' :: rest)
        = some (String.ofList (before ++ cs),
            ⟨p.advance (singleQuotedBody indent afterBreak cs ++ ['\'']), rest⟩) := by
  induction cs with
  | nil =>
    intro r afterBreak before p hread _ _
    rw [singleQuotedBody, hread.close hindent p hrest, List.append_nil, Place.advance_append]
    rfl
  | cons c cs ih =>
    intro r afterBreak before p hread hgap hblank
    rw [List.all_cons, Bool.and_eq_true] at hprintable
    rw [hasPair_cons, Bool.or_eq_false_iff] at hspace hbreak
    have ih := @ih hprintable.2 hspace.2 hbreak.2
    have htext : before ++ c :: cs = before ++ [c] ++ cs := by simp
    by_cases hc : isBreak c = true
    · have hgap : afterBreak = false → r.gap = [] := fun hline =>
        Decidable.byContradiction fun hne => by simpa [hc] using hgap hline hne
      have hbehind : cs.head?.any isSpaceChar = false := by simpa [hc] using hbreak.1
      obtain ⟨r', hread', hstep⟩ := hread.break hc hgap p
      rw [singleQuotedBody, if_pos hc, List.append_assoc, List.append_assoc, hstep, htext,
        Place.advance_append]
      exact ih _ hread' (fun h => absurd h (by decide)) fun _ => hbehind
    · have hc : isBreak c = false := Bool.eq_false_iff.mpr hc
      rw [singleQuotedBody, if_neg (by simp [hc])]
      by_cases hspaceHere : c = ' '
      · subst hspaceHere
        obtain rfl : afterBreak = false := Bool.eq_false_iff.mpr fun hafter => by
          simpa [isSpaceChar] using hblank hafter
        have hbehind : cs.head?.any isBreak = false := by simpa [isSpaceChar] using hspace.1
        have hquote : (' ' : Char) ≠ '\'' := by decide
        simp only [Bool.false_eq_true, if_false, if_neg hquote, List.nil_append, List.cons_append,
          Place.advance_cons]
        rw [singleQuoted_gap (by decide), htext]
        exact ih _ hread.space (fun _ _ => hbehind) fun h => absurd h (by decide)
      · have hgapHere : isGap c = false := Bool.eq_false_iff.mpr fun hgapHere =>
          hspaceHere (eq_space_of_isGap hgapHere hprintable.1 hc)
        rw [List.append_assoc _ (singleQuotedBody indent false cs),
          hread.char hindent hgapHere, htext,
          ih _ (Reading.hasRead_reverse _) (fun _ h => absurd rfl h) fun h => absurd h (by decide),
          List.append_assoc _ (singleQuotedBody indent false cs), Place.advance_append p (_ ++ _)]

/-- A text in single quotes is read as it was. -/
theorem singleQuoted_rendered {indent : Nat} (hindent : 0 < indent) {cs rest : List Char}
    (hcs : allowsSingleQuotes cs = true) (hrest : rest.head? ≠ some '\'') (p : Place) :
    singleQuoted {} p (singleQuotedBody indent false cs ++ '\'' :: rest)
      = some (String.ofList cs,
          ⟨p.advance (singleQuotedBody indent false cs ++ ['\'']), rest⟩) := by
  simp only [allowsSingleQuotes, Bool.and_eq_true, Bool.not_eq_true'] at hcs
  obtain ⟨⟨hprintable, hspace⟩, hbreak⟩ := hcs
  exact singleQuoted_body hindent hrest hprintable hspace hbreak p (Reading.hasRead_reverse [])
    (fun _ h => absurd rfl h) (fun h => absurd h (by decide))

/-! ## Hexadecimal digits -/

theorem hexDigits_succ (n code : Nat) :
    hexDigits (n + 1) code
      = Char.ofNat (if code / 16 ^ n % 16 < 10 then 48 + code / 16 ^ n % 16
          else 55 + code / 16 ^ n % 16) :: hexDigits n code := by
  rw [hexDigits, List.range_succ, List.reverse_append]
  rfl

@[simp] theorem length_hexDigits (n code : Nat) : (hexDigits n code).length = n := by
  simp [hexDigits]

theorem digitValue?_hexDigit : ∀ d < 16,
    digitValue? 16 (Char.ofNat (if d < 10 then 48 + d else 55 + d)) = some d := by
  decide

/-- The last `n` digits of a number, read behind others of value `m`. -/
theorem foldlM_hexDigits (m n code : Nat) :
    (hexDigits n code).foldlM (fun m c => (digitValue? 16 c).map (m * 16 + ·)) m
      = some (m * 16 ^ n + code % 16 ^ n) := by
  induction n generalizing m with
  | zero => simp [hexDigits, Nat.mod_one]
  | succ n ih =>
    have hdigit := digitValue?_hexDigit (code / 16 ^ n % 16) (Nat.mod_lt _ (by decide))
    rw [hexDigits_succ, List.foldlM_cons, hdigit, Option.map_some, Option.bind_eq_bind,
      Option.bind_some, ih, Nat.mod_pow_succ, Nat.pow_succ, Nat.add_mul]
    congr 1
    rw [Nat.mul_assoc, Nat.mul_comm 16, Nat.mul_comm (16 ^ n) (_ % _)]
    omega

theorem digitsValue?_hexDigits {n code : Nat} (hn : 0 < n) (hcode : code < 16 ^ n) :
    digitsValue? 16 (hexDigits n code) = some code := by
  have hne : (hexDigits n code).isEmpty = false := by
    rw [List.isEmpty_eq_false_iff, ← List.length_pos_iff, length_hexDigits]
    exact hn
  rw [digitsValue?, hne, if_neg (by decide), foldlM_hexDigits, Nat.zero_mul, Nat.zero_add,
    Nat.mod_eq_of_lt hcode]

/-! ## Double quotes -/

/-- The letters of escapes are read back. -/
theorem lookup_escapeLetters : ∀ e ∈ escapeLetters,
    simpleEscapes.lookup e.2 = some e.1 ∧ isBreak e.2 = false := by
  decide

theorem mem_of_lookup {α β : Type} [BEq α] [LawfulBEq α] {l : List (α × β)} {a : α} {b : β}
    (h : l.lookup a = some b) : (a, b) ∈ l := by
  obtain ⟨before, behind, rfl, -⟩ := List.lookup_eq_some_iff.mp h
  simp

/-- A character by its number, with as many digits as belong to the letter of the escape. -/
theorem escapeAt?_hexDigits {letter : Char} {n : Nat} (hletter : hexLengths.lookup letter = some n)
    (hsimple : simpleEscapes.lookup letter = none) (hn : 0 < n) {c : Char}
    (hc : c.toNat < 16 ^ n) (rest : List Char) :
    escapeAt? (letter :: hexDigits n c.toNat ++ rest) = some (c, n + 1) := by
  have hvalid : c.toNat.isValidChar := c.valid
  have htake : (hexDigits n c.toNat ++ rest).take n = hexDigits n c.toNat := by
    rw [List.take_append_of_le_length (by simp), List.take_of_length_le (by simp)]
  rw [List.cons_append, escapeAt?, hsimple, hletter]
  simp [htake, digitsValue?_hexDigits hn hc, hvalid]

/-- What an escape was written for is read behind its backslash. -/
theorem escapeAt?_escape (c : Char) :
    ∃ letter digits, escape c = '\\' :: letter :: digits ∧ isBreak letter = false ∧
      ∀ rest, escapeAt? (letter :: digits ++ rest) = some (c, digits.length + 1) := by
  rw [escape]
  cases hlookup : escapeLetters.lookup c with
  | some letter =>
    obtain ⟨hread, hbreak⟩ := lookup_escapeLetters _ (mem_of_lookup hlookup)
    refine ⟨letter, [], rfl, hbreak, fun rest => ?_⟩
    simp only at hread
    simp [escapeAt?, hread]
  | none =>
    have hbound : c.toNat < 0x110000 := by
      have hvalid : c.toNat.isValidChar := c.valid
      simp only [Nat.isValidChar] at hvalid
      omega
    simp only
    split
    · refine ⟨'x', _, rfl, by decide, fun rest => ?_⟩
      rw [escapeAt?_hexDigits (by decide) (by decide) (by decide) (by omega), length_hexDigits]
    · split
      · refine ⟨'u', _, rfl, by decide, fun rest => ?_⟩
        rw [escapeAt?_hexDigits (by decide) (by decide) (by decide) (by omega), length_hexDigits]
      · refine ⟨'U', _, rfl, by decide, fun rest => ?_⟩
        rw [escapeAt?_hexDigits (by decide) (by decide) (by decide) (by omega), length_hexDigits]

theorem Reading.HasRead.put_inLine (h : r.HasRead false before) (cs : List Char) :
    r.put cs = ⟨(before ++ cs).reverse, [], false⟩ := h.put 0 cs

theorem Reading.HasRead.atLineStart_inLine (h : r.HasRead false before) :
    r.atLineStart = false := h.atLineStart Nat.one_pos

theorem doubleQuoted_gap {c : Char} (hc : isGap c = true) (r : Reading) (p : Place)
    (rest : List Char) :
    doubleQuoted r ⟨p, c :: rest⟩ = doubleQuoted (r.addGap c) ⟨p.step c, rest⟩ := by
  rw [doubleQuoted.eq_def]
  simp [hc]

theorem doubleQuoted_escape (h : r.HasRead false before) (c : Char) (p : Place)
    (rest : List Char) :
    doubleQuoted r ⟨p, escape c ++ rest⟩
      = doubleQuoted ⟨(before ++ [c]).reverse, [], false⟩ ⟨p.advance (escape c), rest⟩ := by
  obtain ⟨letter, digits, hescape, hletter, hread⟩ := escapeAt?_escape c
  have hgap : isGap '\\' = false := by decide
  have hquote : ('\\' : Char) ≠ '"' := by decide
  have hskip : Input.skip (digits.length + 1) ⟨p.step '\\', letter :: digits ++ rest⟩
      = ⟨p.advance ('\\' :: letter :: digits), rest⟩ := Input.skip_append _ (letter :: digits) rest
  have hread := hread rest
  rw [List.cons_append] at hread hskip
  rw [hescape, List.cons_append, List.cons_append, doubleQuoted.eq_def]
  simp only [hgap, h.atLineStart_inLine, hquote, hletter, hread, h.put_inLine, hskip,
    Bool.false_and, Bool.false_eq_true, if_false, if_true]

theorem doubleQuoted_char (h : r.HasRead false before) {c : Char} (hgap : isGap c = false)
    (hquote : c ≠ '"') (hbackslash : c ≠ '\\') (p : Place) (rest : List Char) :
    doubleQuoted r ⟨p, c :: rest⟩
      = doubleQuoted ⟨(before ++ [c]).reverse, [], false⟩ ⟨p.step c, rest⟩ := by
  rw [doubleQuoted.eq_def]
  simp only [hgap, h.atLineStart_inLine, hquote, hbackslash, h.put_inLine, Bool.false_and,
    Bool.false_eq_true, if_false]

/-- The inside of double quotes, of which `before` was read. No break stands there as it is. -/
theorem doubleQuoted_body (cs rest : List Char) :
    ∀ {r : Reading} {before : List Char} (p : Place), r.HasRead false before →
      doubleQuoted r ⟨p, doubleQuotedBody cs ++ '"' :: rest⟩
        = some (String.ofList (before ++ cs),
            ⟨p.advance (doubleQuotedBody cs ++ ['"']), rest⟩) := by
  induction cs with
  | nil =>
    intro r before p hread
    have hquote : isGap '"' = false := by decide
    rw [doubleQuotedBody, List.flatMap_nil, List.nil_append, doubleQuoted.eq_def]
    simp [hquote, hread.atLineStart_inLine, Reading.closed, hread.put_inLine, Reading.text]
  | cons c cs ih =>
    intro r before p hread
    have htext : before ++ c :: cs = before ++ [c] ++ cs := by simp
    have hbody : doubleQuotedBody (c :: cs)
        = (if !isPrintable c || isBreak c || c = '"' || c = '\\' then escape c else [c])
          ++ doubleQuotedBody cs := List.flatMap_cons
    rw [hbody, htext, List.append_assoc _ (doubleQuotedBody cs),
      List.append_assoc _ (doubleQuotedBody cs), Place.advance_append]
    split
    · rw [doubleQuoted_escape hread]
      exact ih _ (Reading.hasRead_reverse _)
    · rename_i hkept
      simp only [Bool.or_eq_true, Bool.not_eq_true', decide_eq_true_eq, not_or] at hkept
      obtain ⟨⟨⟨hprintable, hbreak⟩, hquote⟩, hbackslash⟩ := hkept
      rw [Bool.not_eq_false] at hprintable
      rw [List.singleton_append]
      by_cases hspace : c = ' '
      · subst hspace
        rw [doubleQuoted_gap (by decide)]
        exact ih _ hread.space
      · have hgap : isGap c = false := Bool.eq_false_iff.mpr fun hgap =>
          hspace (eq_space_of_isGap hgap hprintable (Bool.eq_false_iff.mpr hbreak))
        rw [doubleQuoted_char hread hgap hquote hbackslash]
        exact ih _ (Reading.hasRead_reverse _)

/-- A text in double quotes is read as it was. -/
theorem doubleQuoted_rendered (cs rest : List Char) (p : Place) :
    doubleQuoted {} ⟨p, doubleQuotedBody cs ++ '"' :: rest⟩
      = some (String.ofList cs, ⟨p.advance (doubleQuotedBody cs ++ ['"']), rest⟩) := by
  exact doubleQuoted_body cs rest p (Reading.hasRead_reverse [])

end DeclTags.Yaml.Scalar
