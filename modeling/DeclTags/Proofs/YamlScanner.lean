import DeclTags.Proofs.YamlUnquoted
import Mathlib.Data.Bool.AllAny
import DeclTags.Yaml.Token
import Mathlib.Logic.Relation

set_option autoImplicit false

/-! # The scanner on written texts

A scanner inside of block collections is said by `inBlock`: where it is, the columns of the open
collections and the tokens so far, with no key pending. From there `Steps` goes to the next token
and settles what its place decides. What a scalar, a key with its colon, and the hyphen of an item
do is one lemma each; the scanner behind a line is that of the line with the collections closed
that the next line is not inside of.
-/

namespace DeclTags.Yaml

namespace Scalar

/-! ## Lines of scalars -/

/-- The scalar is read back from what `Scalar.render` writes for it. -/
def IsWritable (s : Scalar) : Prop :=
  match s.style with
  | .plain => s.text.toList ≠ [] ∧ allowsPlain s.text.toList = true
  | .singleQuoted => allowsSingleQuotes s.text.toList = true
  | .doubleQuoted => True
  | .literal => allowsBlock s.text.toList = true
  | .folded => False

theorem endLine_concat {c : Char} (hc : isBreak c = false) (cs : List Char) :
    endLine (cs ++ [c]) = cs ++ [c, '\n'] := by
  simp [endLine, hc]

theorem endLine_of_allowsPlain {cs : List Char} (hcs : allowsPlain cs = true) (hne : cs ≠ []) :
    endLine cs = cs ++ ['\n'] := by
  simp only [allowsPlain, Bool.and_eq_true] at hcs
  have hlast := List.all_eq_true.mp hcs.1.1.1.1 (cs.getLast hne) (List.getLast_mem hne)
  simp only [Bool.and_eq_true, Bool.not_eq_true'] at hlast
  conv => lhs; rw [← List.dropLast_concat_getLast hne]
  rw [endLine_concat hlast.2]
  conv => rhs; rw [← List.dropLast_concat_getLast hne]
  simp

theorem blockBody_concat (indent : Nat) (afterBreak : Bool) (cs : List Char) :
    blockBody indent afterBreak (cs ++ ['\n']) = blockBody indent afterBreak cs ++ ['\n'] := by
  induction cs generalizing afterBreak with
  | nil => rfl
  | cons c cs ih =>
    rw [List.cons_append, blockBody, blockBody]
    split
    · rw [ih, List.cons_append]
    · rw [ih]
      simp

theorem getLast?_blockBody (indent : Nat) (afterBreak : Bool) {cs : List Char} (hne : cs ≠ []) :
    (blockBody indent afterBreak cs).getLast? = cs.getLast? := by
  induction cs generalizing afterBreak with
  | nil => exact absurd rfl hne
  | cons c cs ih =>
    rw [blockBody]
    cases cs with
    | nil => split <;> simp [blockBody]
    | cons d cs =>
      have ih := fun afterBreak => ih afterBreak (List.cons_ne_nil d cs)
      rw [List.getLast?_cons_cons]
      split
      · rw [List.getLast?_cons, ih]
        rfl
      · rw [List.getLast?_append, List.getLast?_cons, ih]
        rfl

/-- The line feed at the end of a block is one of the lines it holds. -/
theorem endLine_block (indent : Nat) {hints cs : List Char} (hne : cs ≠ []) :
    endLine ('|' :: (hints ++ '\n' :: blockBody indent true cs))
      = '|' :: (hints ++ '\n' :: blockBody indent true (endLine cs)) := by
  have hlast : ('|' :: (hints ++ '\n' :: blockBody indent true cs)).getLast? = cs.getLast? := by
    rw [← List.cons_append, List.getLast?_append, List.getLast?_cons, getLast?_blockBody _ _ hne]
    cases hcs : cs.getLast? with
    | none => exact absurd (List.getLast?_eq_none_iff.mp hcs) hne
    | some c => rfl
  rw [endLine, endLine, hlast]
  split
  · rfl
  · rw [blockBody_concat]
    simp

end Scalar

namespace Scanner

/-! ## Scanners inside of blocks -/

/-- A scanner inside of the block collections of the columns `indents`, with no key pending. -/
def inBlock (p : Place) (rest : List Char) (indents : List Nat) (keyAllowed : Bool)
    (tokens : List Token) : Scanner :=
  { place := p, rest, indents, keyAllowed, tokens := tokens.toArray }

variable {p : Place} {rest : List Char} {indents : List Nat} {b : Bool} {tokens : List Token}

@[simp] theorem inFlow_inBlock : (inBlock p rest indents b tokens).inFlow = false := rfl

@[simp] theorem rest_inBlock : (inBlock p rest indents b tokens).rest = rest := rfl

@[simp] theorem rest_closeBlocks (column : Option Nat) (s : Scanner) :
    (closeBlocks column s).rest = s.rest := by
  rw [closeBlocks]
  split <;> rfl

/-- A collection further right than the column is closed. -/
theorem closeBlocks_cons {j k : Nat} (h : j < k) :
    closeBlocks (some j) (inBlock p rest (k :: indents) b tokens)
      = closeBlocks (some j) (inBlock p rest indents b (tokens ++ [.blockEnd])) := by
  have htake : (k :: indents).takeWhile (fun indent => (some j).all (· < indent))
      = k :: indents.takeWhile (fun indent => (some j).all (· < indent)) :=
    List.takeWhile_cons_of_pos (by simpa using h)
  rw [closeBlocks, closeBlocks, if_neg (by simp), if_neg (by simp)]
  simp only [inBlock] at htake ⊢
  rw [htake]
  simp [← List.toArray_replicate, List.replicate_succ]

theorem closeBlocks_of_le {s : Scanner} {j : Nat} (h : s.indents.head?.all (· ≤ j) = true) :
    closeBlocks (some j) s = s := by
  have htake : s.indents.takeWhile (fun indent => (some j).all (· < indent)) = [] := by
    cases hindents : s.indents with
    | nil => rfl
    | cons k indents =>
      rw [hindents] at h
      exact List.takeWhile_cons_of_neg (by simpa using h)
  rw [closeBlocks]
  split
  · rfl
  · rw [htake]
    simp

/-! ## Between tokens -/

/-- The text goes on with a token, not with something between tokens. -/
def BeginsToken (cs : List Char) : Prop :=
  ∃ c ds, cs = c :: ds ∧ isGap c = false ∧ c ≠ '#' ∧ c ≠ '\ufeff'

theorem nextToken_of_beginsToken (h : BeginsToken rest) (inFlow keyAllowed lineStart : Bool)
    (p : Place) : nextToken inFlow keyAllowed lineStart false p rest = (keyAllowed, ⟨p, rest⟩) := by
  obtain ⟨c, ds, rfl, hgap, hsign, hmark⟩ := h
  simp only [isGap, isBlank, Bool.or_eq_false_iff, decide_eq_false_iff_not] at hgap
  rw [nextToken]
  simp [hgap, hsign, hmark]

theorem nextToken_of_beginsLine (h : BeginsLine rest) (inFlow keyAllowed lineStart : Bool)
    (p : Place) : nextToken inFlow keyAllowed lineStart false p rest = (keyAllowed, ⟨p, rest⟩) := by
  cases rest with
  | nil => rfl
  | cons c rest =>
    exact nextToken_of_beginsToken ⟨c, rest, rfl, h.isGap_eq_false, h.ne (by decide),
      h.ne (by decide)⟩ _ _ _ p

theorem nextToken_spaces (inFlow keyAllowed lineStart : Bool) (n : Nat) (p : Place)
    (rest : List Char) :
    ∃ lineStart', nextToken inFlow keyAllowed lineStart false p (Scalar.spaces n ++ rest)
      = nextToken inFlow keyAllowed lineStart' false (p.advance (Scalar.spaces n)) rest := by
  induction n generalizing p lineStart with
  | zero => exact ⟨lineStart, rfl⟩
  | succ n ih =>
    obtain ⟨lineStart', h⟩ := ih false (p.step ' ')
    refine ⟨lineStart', ?_⟩
    rw [Scalar.spaces_succ, List.cons_append, nextToken, if_neg (by decide), if_neg (by decide),
      if_pos (by simp), h, Place.advance_cons]

/-- Behind a line feed a key may begin. -/
theorem nextToken_line (keyAllowed lineStart : Bool) (n : Nat) (p : Place)
    (hrest : ∀ lineStart p, nextToken false true lineStart false p rest = (true, ⟨p, rest⟩)) :
    nextToken false keyAllowed lineStart false p ('\n' :: (Scalar.spaces n ++ rest))
      = (true, ⟨p.advance ('\n' :: Scalar.spaces n), rest⟩) := by
  obtain ⟨lineStart', h⟩ := nextToken_spaces false true true n (p.step '\n') rest
  rw [nextToken, if_pos (by decide), Bool.not_false, Bool.or_true, h, hrest, Place.advance_cons]

/-- Settling behind one line, at the begin of another: a pending key of the line is given up. -/
theorem settle?_eq {s : Scanner} (key : Option PendingKey) (hkeys : s.keys = [key])
    {p' : Place} (hkey : ∀ k ∈ key, k.required = false ∧ k.place.line < p'.line)
    {keyAllowed : Bool} {rest' : List Char}
    (hnext : nextToken false s.keyAllowed (s.place.column = 0) false s.place s.rest
      = (keyAllowed, ⟨p', rest'⟩)) :
    s.settle? = some (closeBlocks (some p'.column)
      (inBlock p' rest' s.indents keyAllowed s.tokens.toList)) := by
  have hflow : s.inFlow = false := by simp [inFlow, hkeys]
  rw [settle?, hflow, hnext]
  simp only [dropStaleKeys?, moveTo, hkeys]
  cases key with
  | none => rfl
  | some k =>
    obtain ⟨hrequired, hline⟩ := hkey k rfl
    simp [hrequired, hline, inBlock]

/-- The key that is pending behind what begins at `p`. -/
def saved (b : Bool) (p : Place) (tokens : List Token) : Option PendingKey :=
  if b then some ⟨p, tokens.length, false⟩ else none

/-- What begins inside of the innermost collection is not required to be a key. -/
theorem saveKey?_inBlock {k : Nat} (hk : k < p.column) :
    saveKey? (inBlock p rest (k :: indents) b tokens)
      = some { inBlock p rest (k :: indents) b tokens with keys := [saved b p tokens] } := by
  have hrequired : (k == p.column) = false := by
    rw [beq_eq_false_iff_ne]
    omega
  cases b with
  | false => rfl
  | true => simp [saveKey?, dropKey?, inBlock, setKey, inFlow, hrequired, saved]

/-! ## Scalars -/

theorem startsPlain_cons {c : Char} {cs : List Char} (hgap : isGap c = false)
    (hne : ∀ d ∈ openingIndicators, c ≠ d)
    (hinside : c = '-' ∨ c = '?' ∨ c = ':' → atGap cs = false) :
    startsPlain false (c :: cs) = true := by
  by_cases hmark : c = '-' ∨ c = '?' ∨ c = ':'
  · have hbehind := hinside hmark
    have hblank : cs.head?.any isBlank = false := by
      cases cs with
      | nil => cases hbehind
      | cons d cs =>
        have hd : isGap d = false := by simpa [atGap] using hbehind
        rw [isGap, Bool.or_eq_false_iff] at hd
        simpa using hd.1
    rcases hmark with rfl | rfl | rfl <;> simp [startsPlain, hbehind, hblank]
  · have hsubset : ∀ d ∈ indicators, d ∈ openingIndicators ∨ d = '-' ∨ d = '?' ∨ d = ':' :=
      List.all_iff_forall_prop.1 (by decide)
    have hindicator : c ∉ indicators := fun hc =>
      (hsubset c hc).elim (fun hopening => hne c hopening rfl) hmark
    simp [startsPlain, hgap, hindicator]

/-- What begins no token of its own begins a plain scalar. -/
theorem token?_eq_plain? {s : Scanner} {c : Char} {cs : List Char} (hrest : s.rest = c :: cs)
    (hflow : s.inFlow = false) (hgap : isGap c = false)
    (hopening : openingIndicators.contains c = false)
    (hinside : c = '-' ∨ c = '?' ∨ c = ':' → atGap cs = false)
    (hline : s.place.column ≠ 0 ∨ (c ≠ '-' ∧ c ≠ '.')) : s.token? = s.plain? := by
  have hne : ∀ d ∈ openingIndicators, c ≠ d := by
    rintro d hd rfl
    rw [List.contains_iff_mem.mpr hd] at hopening
    cases hopening
  have hstarts := startsPlain_cons hgap hne hinside
  have hmarker : (decide (s.place.column = 0) && decide (c = '-') && atMarker (c :: cs)) = false
      ∧ (decide (s.place.column = 0) && decide (c = '.') && atMarker (c :: cs)) = false := by
    rcases hline with hline | ⟨hhyphen, hpoint⟩
    · simp [hline]
    · simp [hhyphen, hpoint]
  have hatGap : (decide (c = '-') && atGap cs) = false ∧ (decide (c = '?') && atGap cs) = false
      ∧ (decide (c = ':') && atGap cs) = false := by
    refine ⟨?_, ?_, ?_⟩ <;>
    · rw [Bool.and_eq_false_iff, decide_eq_false_iff_not]
      by_cases hc : atGap cs = true
      · exact .inl fun h => by simp [hinside (by simp [h])] at hc
      · exact .inr (Bool.eq_false_iff.mpr hc)
  simp only [openingIndicators, List.forall_mem_cons] at hne
  rw [token?, hrest]
  simp [hflow, hstarts, hmarker, hatGap, hne]

/-- The place behind a text that ends with a break and the indentation of the next line. -/
theorem advance_line (cs : List Char) (h : cs.getLast?.any isBreak = true) (p : Place) (j : Nat) :
    p.line < (p.advance (cs ++ Scalar.spaces j)).line
      ∧ (p.advance (cs ++ Scalar.spaces j)).column = j := by
  obtain ⟨front, c, rfl⟩ : ∃ front c, cs = front ++ [c] := by
    rcases List.eq_nil_or_concat cs with rfl | ⟨front, c, rfl⟩
    · cases h
    · exact ⟨front, c, List.concat_eq_append⟩
  have hc : isBreak c = true := by simpa using h
  constructor
  · exact Place.line_lt_advance (c := c) (by simp) hc
  · rw [Place.advance_append, Place.advance_append]
    exact Scalar.column_advance_spaces j (Place.step_of_isBreak hc)

/-- On a later line what was pending is given up. -/
theorem stale_of_mem_saved (b : Bool) (tokens : List Token) {p' : Place}
    (hline : p.line < p'.line) :
    ∀ k ∈ saved b p tokens, k.required = false ∧ k.place.line < p'.line := by
  intro k hk
  rw [saved] at hk
  split at hk
  · cases hk
    exact ⟨rfl, hline⟩
  · cases hk

/-- The scanner behind a scalar in the innermost collection, which ends with its line. -/
theorem settle?_scalar (p : Place) (before : List Char) (indents : List Nat) (b : Bool)
    (tokens : List Token) (x : Scalar) {more : List Char} {key : Option PendingKey}
    {next p' : Place} {allowed : Bool}
    (hkey : ∀ k ∈ key, k.required = false ∧ k.place.line < p'.line)
    (hnext : nextToken false allowed (next.column = 0) false next more = (true, ⟨p', rest⟩)) :
    settle? { push (.scalar x) { inBlock p before indents b tokens with keys := [key] } with
        toInput := ⟨next, more⟩, keyAllowed := allowed }
      = some (closeBlocks (some p'.column)
          (inBlock p' rest indents true (tokens ++ [.scalar x]))) := by
  rw [settle?_eq key rfl hkey hnext]
  simp [push, inBlock]

/-- A scalar in quotes, behind which its line ends. -/
theorem step_quoted (style : ScalarStyle) (read : Input → Option (String × Input)) (q : Char)
    (body : List Char) {text : String} {j k : Nat} (hk : k < p.column) (hrest : BeginsLine rest)
    (htoken : ∀ more, token? (inBlock p (q :: more) (k :: indents) b tokens)
      = quoted? style read (inBlock p (q :: more) (k :: indents) b tokens))
    (hread : read ⟨p.step q, body ++ q :: '\n' :: (Scalar.spaces j ++ rest)⟩
      = some (text, ⟨(p.step q).advance (body ++ [q]), '\n' :: (Scalar.spaces j ++ rest)⟩)) :
    (token? (inBlock p (q :: (body ++ [q, '\n']) ++ (Scalar.spaces j ++ rest))
        (k :: indents) b tokens)).bind settle?
      = some (closeBlocks (some j)
          (inBlock (p.advance (q :: (body ++ [q, '\n']) ++ Scalar.spaces j)) rest (k :: indents)
            true (tokens ++ [.scalar ⟨style, text⟩]))) := by
  have hplace : p.advance (q :: (body ++ [q, '\n']) ++ Scalar.spaces j)
      = ((p.step q).advance (body ++ [q])).advance ('\n' :: Scalar.spaces j) := by
    simp [Place.advance_append]
  have htext : q :: (body ++ [q, '\n']) ++ (Scalar.spaces j ++ rest)
      = q :: (body ++ q :: '\n' :: (Scalar.spaces j ++ rest)) := by simp
  obtain ⟨hline, hcolumn⟩ := advance_line (q :: (body ++ [q, '\n']))
    (by simp [List.getLast?_cons, List.getLast?_append, isBreak]) p j
  rw [hplace] at hline hcolumn
  have hnext := nextToken_line false
    (((p.step q).advance (body ++ [q])).column = 0) j ((p.step q).advance (body ++ [q]))
    fun lineStart q => nextToken_of_beginsLine hrest false true lineStart q
  have hsettle := settle?_scalar p (q :: (body ++ q :: '\n' :: (Scalar.spaces j ++ rest)))
    (k :: indents) b tokens ⟨style, text⟩ (stale_of_mem_saved b tokens hline) hnext
  have hskip : Input.skip 1 ⟨p, q :: (body ++ q :: '\n' :: (Scalar.spaces j ++ rest))⟩
      = ⟨p.step q, body ++ q :: '\n' :: (Scalar.spaces j ++ rest)⟩ := rfl
  rw [htext, htoken, hplace, quoted?, saveKey?_inBlock hk]
  rw [hcolumn] at hsettle
  simp only [inBlock, Option.bind_eq_bind, Option.bind_some, hskip, hread, Option.pure_def]
  exact hsettle

theorem allowsPlain_head {c : Char} {cs : List Char} (hcs : allowsPlain (c :: cs) = true) :
    isGap c = false ∧ openingIndicators.contains c = false ∧
      ∀ tail, c = '-' ∨ c = '?' ∨ c = ':' → atGap (cs ++ tail) = false := by
  simp only [allowsPlain, List.all_cons, beginsMarked, Bool.and_eq_true, Bool.not_eq_true',
    Bool.or_eq_false_iff, List.head?_cons, Option.any_some, isSpaceChar,
    decide_eq_false_iff_not] at hcs
  obtain ⟨⟨⟨⟨⟨⟨hprintable, hbreak⟩, -⟩, ⟨⟨hopening, hmark⟩, -⟩, -⟩, -⟩, hspace⟩, -⟩ := hcs
  refine ⟨Bool.eq_false_iff.mpr fun h => hspace (eq_space_of_isGap h hprintable hbreak), hopening,
    fun tail hc => ?_⟩
  have hcontains : ['?', ':', '-'].contains c = true := by
    rcases hc with rfl | rfl | rfl <;> rfl
  rw [hcontains, Bool.true_and] at hmark
  cases cs with
  | nil => cases hmark
  | cons d cs => exact hmark

theorem step_plain {text : String} (hne : text.toList ≠ [])
    (hcs : allowsPlain text.toList = true) {j k : Nat} (hj : j ≤ k) (hk : k < p.column)
    (hrest : BeginsLine rest) :
    (token? (inBlock p (text.toList ++ ['\n'] ++ (Scalar.spaces j ++ rest)) (k :: indents) b
        tokens)).bind settle?
      = some (closeBlocks (some j)
          (inBlock (p.advance (text.toList ++ ['\n'] ++ Scalar.spaces j)) rest (k :: indents) true
            (tokens ++ [.scalar ⟨.plain, text⟩]))) := by
  have hplace :
      text.toList ++ '\n' :: Scalar.spaces j = text.toList ++ ['\n'] ++ Scalar.spaces j := by
    simp
  have htext : text.toList ++ ['\n'] ++ (Scalar.spaces j ++ rest)
      = text.toList ++ '\n' :: (Scalar.spaces j ++ rest) := by simp
  obtain ⟨hline, hcolumn⟩ := advance_line (text.toList ++ ['\n'])
    (by simp [List.getLast?_append, isBreak]) p j
  have hread := Scalar.plain_line (show j < k + 1 by omega) hne hcs hrest p
  rw [hplace] at hread
  have hgap : (Scalar.spaces j ++ ['\n']).any isBreak = true := by
    rw [List.any_append, Bool.or_eq_true]
    exact .inr (by decide)
  have hsettle := settle?_scalar p (text.toList ++ '\n' :: (Scalar.spaces j ++ rest))
    (k :: indents) b tokens ⟨.plain, text⟩ (stale_of_mem_saved b tokens hline)
    (nextToken_of_beginsLine hrest false true _ _)
  rw [hcolumn] at hsettle
  have htoken : token? (inBlock p (text.toList ++ '\n' :: (Scalar.spaces j ++ rest)) (k :: indents)
      b tokens) = plain? (inBlock p (text.toList ++ '\n' :: (Scalar.spaces j ++ rest))
      (k :: indents) b tokens) := by
    obtain ⟨c, cs, htext⟩ : ∃ c cs, text.toList = c :: cs := List.exists_cons_of_ne_nil hne
    rw [htext] at hcs ⊢
    obtain ⟨hgap, hopening, hmark⟩ := allowsPlain_head hcs
    refine token?_eq_plain? (List.cons_append ..) rfl hgap hopening (hmark _) (.inl ?_)
    exact Nat.ne_of_gt (Nat.lt_of_le_of_lt (Nat.zero_le k) hk)
  rw [htext, htoken, plain?, saveKey?_inBlock hk]
  simp only [inBlock, insideColumn, inFlow, List.head?_cons, Option.elim_some, List.tail_cons,
    List.isEmpty_nil, Bool.not_true, Option.bind_eq_bind, Option.bind_some, hread, Option.pure_def,
    hgap]
  have htextBack : Scalar.Reading.text ⟨text.toList.reverse, Scalar.spaces j ++ ['\n'], false⟩
      = text := by simp [Scalar.Reading.text]
  rw [htextBack]
  exact hsettle

theorem step_block {text : String} (hcs : allowsBlock text.toList = true) {j k : Nat} (hj : j ≤ k)
    (hk : k < p.column) (hrest : BeginsLine rest) :
    let line := endLine (Scalar.render (k + 2) ⟨.literal, text⟩)
    (token? (inBlock p (line ++ (Scalar.spaces j ++ rest)) (k :: indents) b tokens)).bind settle?
      = some (closeBlocks (some j) (inBlock (p.advance (line ++ Scalar.spaces j)) rest
          (k :: indents) true (tokens ++ [.scalar ⟨.literal, text⟩]))) := by
  intro line
  have hne : text.toList ≠ [] := by
    simp only [allowsBlock, Bool.and_eq_true, Bool.not_eq_true', List.isEmpty_eq_false_iff] at hcs
    exact hcs.1.1.1
  have hline : line = '|' :: (Scalar.blockHints text.toList ++
      '\n' :: Scalar.blockBody (k + 2) true (endLine text.toList)) :=
    Scalar.endLine_block (k + 2) hne
  have hcolumn : (p.advance (line ++ Scalar.spaces j)).column = j :=
    (advance_line line (Scalar.isBreak_getLast?_endLine _) p j).2
  have hstale : ∀ k ∈ (none : Option PendingKey), k.required = false
      ∧ k.place.line < (p.advance (line ++ Scalar.spaces j)).line := fun k hk => by cases hk
  have hsettle := settle?_scalar p (line ++ (Scalar.spaces j ++ rest)) (k :: indents) b tokens
    ⟨.literal, text⟩ hstale
    (nextToken_of_beginsLine hrest false true _ (p.advance (line ++ Scalar.spaces j)))
  rw [hcolumn] at hsettle
  have hread := Scalar.block_rendered hj hcs hrest (p.step '|')
  rw [String.ofList_toList] at hread
  have hplace : (p.step '|').advance (Scalar.blockHints text.toList ++
      '\n' :: (Scalar.blockBody (k + 2) true (endLine text.toList) ++ Scalar.spaces j))
      = p.advance (line ++ Scalar.spaces j) := by
    rw [hline]
    simp
  have htext : line ++ (Scalar.spaces j ++ rest) = '|' :: (Scalar.blockHints text.toList ++ '\n' ::
      (Scalar.blockBody (k + 2) true (endLine text.toList) ++ (Scalar.spaces j ++ rest))) := by
    rw [hline]
    simp
  have htoken : ∀ more, token? (inBlock p ('|' :: more) (k :: indents) b tokens)
      = block? .literal (inBlock p ('|' :: more) (k :: indents) b tokens) := by
    intro more
    have hcolumn : p.column ≠ 0 := by omega
    simp [token?, inBlock, hcolumn, inFlow]
  rw [htext] at hsettle ⊢
  have hskip : ∀ more, Input.skip 1 ⟨p, '|' :: more⟩ = ⟨p.step '|', more⟩ := fun _ => rfl
  have hstyle : (ScalarStyle.literal == ScalarStyle.folded) = false := rfl
  rw [htoken, block?, hstyle]
  simp only [dropKey?, inBlock, List.head?_cons, Option.join_some, Option.any_none, setKey,
    Bool.false_eq_true, if_false, List.tail_cons, Option.bind_eq_bind, Option.bind_some, hskip,
    hread, Option.pure_def, hplace]
  exact hsettle

/-- A scalar in the innermost collection, up to the next token. -/
theorem step_scalar {s : Scalar} (hs : s.IsWritable) {j k : Nat} (hj : j ≤ k) (hk : k < p.column)
    (hrest : BeginsLine rest) :
    (inBlock p (endLine (s.render (k + 2)) ++ (Scalar.spaces j ++ rest)) (k :: indents) b
        tokens).token?.bind settle?
      = some (closeBlocks (some j)
          (inBlock (p.advance (endLine (s.render (k + 2)) ++ Scalar.spaces j)) rest (k :: indents)
            true (tokens ++ [.scalar s]))) := by
  have hcolumn : p.column ≠ 0 := by omega
  obtain ⟨style, text⟩ := s
  cases style with
  | folded => exact absurd hs id
  | plain =>
    obtain ⟨hne, hcs⟩ : text.toList ≠ [] ∧ allowsPlain text.toList = true := hs
    rw [show endLine (Scalar.render (k + 2) ⟨.plain, text⟩) = text.toList ++ ['\n'] from
      Scalar.endLine_of_allowsPlain hcs hne]
    exact step_plain hne hcs hj hk hrest
  | singleQuoted =>
    have hline : endLine (Scalar.render (k + 2) ⟨.singleQuoted, text⟩)
        = '\'' :: (Scalar.singleQuotedBody (k + 2) false text.toList ++ ['\'', '\n']) :=
      Scalar.endLine_concat (c := '\'') (by decide) ('\'' :: _)
    have hopen : ('\n' :: (Scalar.spaces j ++ rest)).head? ≠ some '\'' := by simp
    have hread := Scalar.singleQuoted_rendered (show 0 < k + 2 by omega) hs hopen (p.step '\'')
    rw [String.ofList_toList] at hread
    rw [hline]
    refine step_quoted .singleQuoted (fun i => Scalar.singleQuoted {} i.place i.rest) '\'' _ hk
      hrest (fun more => ?_) hread
    simp [token?, inBlock, hcolumn]
  | doubleQuoted =>
    have hline : endLine (Scalar.render (k + 2) ⟨.doubleQuoted, text⟩)
        = '"' :: (Scalar.doubleQuotedBody text.toList ++ ['"', '\n']) :=
      Scalar.endLine_concat (c := '"') (by decide) ('"' :: _)
    have hread := Scalar.doubleQuoted_rendered text.toList
      ('\n' :: (Scalar.spaces j ++ rest)) (p.step '"')
    rw [String.ofList_toList] at hread
    rw [hline]
    refine step_quoted .doubleQuoted (Scalar.doubleQuoted {}) '"' _ hk hrest (fun more => ?_) hread
    simp [token?, inBlock, hcolumn]
  | literal =>
    have hcs : allowsBlock text.toList = true := hs
    exact step_block hcs hj hk hrest

/-! ## Keys -/

/-- A name that is written plainly and read as the key before a colon. -/
structure IsKeyName (name : String) : Prop where
  plain : allowsPlain name.toList = true
  lower : name.toList.head?.any Char.isLower = true
  short : name.length ≤ 256

theorem IsKeyName.exists_cons {name : String} (h : IsKeyName name) :
    ∃ c cs, name.toList = c :: cs ∧ c.isLower = true := by
  have hlower := h.lower
  cases htext : name.toList with
  | nil => simp [htext] at hlower
  | cons c cs =>
    rw [htext] at hlower
    exact ⟨c, cs, rfl, hlower⟩

theorem IsKeyName.not_break {name : String} (h : IsKeyName name) :
    ∀ c ∈ name.toList, isBreak c = false := by
  intro c hc
  have hplain := h.plain
  simp only [allowsPlain, Bool.and_eq_true] at hplain
  have hc := List.all_eq_true.mp hplain.1.1.1.1 c hc
  rw [Bool.and_eq_true, Bool.not_eq_true'] at hc
  exact hc.2

theorem insertIdx_append (before behind : List Token) (t : Token) :
    (before ++ behind).insertIdx before.length t = before ++ t :: behind := by
  induction before with
  | nil => rfl
  | cons u before ih =>
    rw [List.cons_append, List.length_cons, List.insertIdx_succ_cons, ih, List.cons_append]

variable {outer : List Nat} {opened : List Token}

/-- A key at column `p.column` opens a map there or goes on with one, `opened` being the token that
this takes. -/
def OpensMap (p : Place) (indents outer : List Nat) (opened : List Token) : Prop :=
  (indents = p.column :: outer ∧ opened = [])
    ∨ (indents = outer ∧ opened = [.blockMap] ∧ outer.head?.all (· < p.column) = true)

theorem OpensMap.head_le (h : OpensMap p indents outer opened) {j : Nat} (hj : p.column ≤ j) :
    indents.head?.all (· ≤ j) = true := by
  rcases h with ⟨rfl, -⟩ | ⟨rfl, -, h⟩
  · simpa using hj
  · cases indents with
    | nil => rfl
    | cons k outer =>
      simp only [List.head?_cons, Option.all_some, decide_eq_true_eq] at h ⊢
      omega

/-- On the line of a pending key the scanner stays where it is, at the begin of a token. -/
theorem settle?_pending {s : Scanner} {key : PendingKey} (hkeys : s.keys = [some key])
    (hline : key.place.line = s.place.line) (hnear : s.place.offset ≤ key.place.offset + keyLimit)
    (hrest : BeginsToken s.rest) (hindents : s.indents.head?.all (· ≤ s.place.column) = true) :
    s.settle? = some s := by
  have hflow : s.inFlow = false := by simp [inFlow, hkeys]
  have hkept : s.dropStaleKeys? = some s := by
    have hstays : ¬ (key.place.line < s.place.line
        ∨ key.place.offset + keyLimit < s.place.offset) := by omega
    obtain ⟨i, indents, keys, keyAllowed, tokens⟩ := s
    subst hkeys
    simp [dropStaleKeys?, hstays]
  rw [settle?, hflow, nextToken_of_beginsToken hrest]
  calc (s.dropStaleKeys?.bind fun s => some (closeBlocks (some s.place.column) s))
      = some (closeBlocks (some s.place.column) s) := by rw [hkept, Option.bind_some]
    _ = some s := by rw [closeBlocks_of_le hindents]

/-- A key, up to its colon. -/
theorem step_key {name : String} (hname : IsKeyName name) (hrest : atGap rest = true)
    (hopens : OpensMap p indents outer opened) :
    (inBlock p (name.toList ++ ':' :: rest) indents true tokens).token?.bind settle?
      = some { inBlock (p.advance name.toList) (':' :: rest) indents false
          (tokens ++ [.scalar ⟨.plain, name⟩]) with
        keys := [some ⟨p, tokens.length, indents.head? == some p.column⟩] } := by
  obtain ⟨c, cs, htext, hlower⟩ := hname.exists_cons
  have hne : name.toList ≠ [] := by simp [htext]
  have htoken : token? (inBlock p (name.toList ++ ':' :: rest) indents true tokens)
      = plain? (inBlock p (name.toList ++ ':' :: rest) indents true tokens) := by
    have hplain := hname.plain
    rw [htext] at hplain ⊢
    obtain ⟨hgap, hopening, hmark⟩ := allowsPlain_head hplain
    refine token?_eq_plain? (List.cons_append ..) rfl hgap hopening (hmark _) (.inr ?_)
    constructor <;>
    · rintro rfl
      exact absurd hlower (by decide)
  have hsaved : saveKey? (inBlock p (name.toList ++ ':' :: rest) indents true tokens)
      = some { inBlock p (name.toList ++ ':' :: rest) indents true tokens with
          keys := [some ⟨p, tokens.length, indents.head? == some p.column⟩] } := by
    simp [saveKey?, dropKey?, inBlock, setKey, inFlow]
  have hread := Scalar.plain_key (indents.head?.elim 0 (· + 1)) hne hname.plain hrest p
  obtain ⟨hline, hcolumn⟩ := Place.advance_of_no_break (p := p) hname.not_break
  have hoffset := Place.offset_advance_le p name.toList
  rw [htoken, plain?, hsaved]
  simp only [inBlock, insideColumn, inFlow, List.tail_cons, List.isEmpty_nil, Bool.not_true,
    Option.bind_eq_bind, Option.bind_some, hread, Option.pure_def, List.any_nil]
  have htextBack : Scalar.Reading.text ⟨name.toList.reverse, [], false⟩ = name := by
    simp [Scalar.Reading.text]
  have hcolon : BeginsToken (':' :: rest) := ⟨':', rest, rfl, by decide, by decide, by decide⟩
  have hlength : name.toList.length = name.length := String.length_toList
  have hshort := hname.short
  rw [htextBack, settle?_pending rfl hline.symm ?_ hcolon ?_]
  · simp [push, moveTo]
  · simp only [push, moveTo, keyLimit]
    omega
  · exact hopens.head_le (by simp only [moveTo]; omega)

/-- The colon behind a key. -/
theorem token?_colon {name : Scalar} (hrest : atGap rest = true) {q : Place} {required : Bool}
    (hopens : OpensMap p indents outer opened) :
    token? { inBlock q (':' :: rest) indents false (tokens ++ [.scalar name]) with
        keys := [some ⟨p, tokens.length, required⟩] }
      = some (inBlock (q.step ':') rest (p.column :: outer) false
          (tokens ++ opened ++ [.key, .scalar name, .value])) := by
  have htoken : token? { inBlock q (':' :: rest) indents false (tokens ++ [.scalar name]) with
        keys := [some ⟨p, tokens.length, required⟩] }
      = value? { inBlock q (':' :: rest) indents false (tokens ++ [.scalar name]) with
        keys := [some ⟨p, tokens.length, required⟩] } := by
    simp [token?, inBlock, inFlow, hrest]
  rw [htoken]
  rcases hopens with ⟨rfl, rfl⟩ | ⟨rfl, rfl, hdeeper⟩
  · simp [value?, insert, openBlock, setKey, push, skip, moveTo, inBlock, inFlow,
      insertIdx_append, Input.skip]
  · simp [value?, insert, openBlock, setKey, push, skip, moveTo, inBlock, inFlow,
      insertIdx_append, Input.skip, hdeeper]

/-! ## Between a colon or a hyphen and what follows -/

/-- Behind a space on the same line. -/
theorem settle?_space {k : Nat} (hk : k ≤ p.column) (hrest : BeginsToken rest) :
    settle? (inBlock p (' ' :: rest) (k :: indents) b tokens)
      = some (inBlock (p.step ' ') rest (k :: indents) b tokens) := by
  have hnext :
      nextToken false b (p.column = 0) false p (' ' :: rest) = (b, ⟨p.step ' ', rest⟩) := by
    rw [nextToken, if_neg (by decide), if_neg (by decide), if_pos (by simp),
      nextToken_of_beginsToken hrest]
  have hcolumn : (p.step ' ').column = p.column + 1 := Place.step_of_not_isBreak (by decide)
  rw [settle?_eq none rfl (fun _ hk => by cases hk) hnext, closeBlocks_of_le]
  · simp [inBlock]
  · simp only [inBlock, List.head?_cons, Option.all_some, decide_eq_true_eq]
    omega

/-- On the next line, which is not inside of all the collections. -/
theorem settle?_line (p : Place) (indents : List Nat) (b : Bool) (tokens : List Token) (j : Nat)
    (hrest : BeginsLine rest) :
    settle? (inBlock p ('\n' :: (Scalar.spaces j ++ rest)) indents b tokens)
      = some (closeBlocks (some j)
          (inBlock (p.advance ('\n' :: Scalar.spaces j)) rest indents true tokens)) := by
  have hnext := nextToken_line b (p.column = 0) j p
    (nextToken_of_beginsLine hrest false true)
  have hcolumn : (p.advance ('\n' :: Scalar.spaces j)).column = j :=
    Scalar.column_advance_spaces j (Place.step_of_isBreak (by decide))
  rw [settle?_eq none rfl (fun _ hk => by cases hk) hnext, hcolumn]
  simp [inBlock]

/-! ## Items and empty lists -/

/-- The hyphen of an item that stands where the collection around the list does. -/
theorem token?_item :
    token? (inBlock p ('-' :: ' ' :: rest) (p.column :: indents) true tokens)
      = some (inBlock (p.step '-') (' ' :: rest) (p.column :: indents) true
          (tokens ++ [.item])) := by
  have hgap : atGap (' ' :: rest) = true := by
    simp [atGap, isGap, isBlank]
  simp [token?, item?, openBlock, dropKey?, setKey, push, skip, moveTo, inBlock, inFlow, hgap,
    atMarker, Input.skip]

/-- The scanner between the brackets of a list without items. -/
def inBrackets (p : Place) (rest : List Char) (indents : List Nat) (tokens : List Token) :
    Scanner :=
  { inBlock p rest indents true tokens with keys := [none, none] }

theorem step_openList :
    (token? (inBlock p ('[' :: ']' :: rest) indents false tokens)).bind settle?
      = some (inBrackets (p.step '[') (']' :: rest) indents (tokens ++ [.openList])) := by
  have htoken : token? (inBlock p ('[' :: ']' :: rest) indents false tokens)
      = some (inBrackets (p.step '[') (']' :: rest) indents (tokens ++ [.openList])) := by
    simp [token?, openBracket?, saveKey?, push, skip, moveTo, inBlock, inBrackets, Input.skip]
  have hbracket : BeginsToken (']' :: rest) := ⟨']', rest, rfl, by decide, by decide, by decide⟩
  rw [htoken, Option.bind_some, settle?]
  simp only [inBrackets, inBlock, nextToken_of_beginsToken hbracket]
  rfl

theorem token?_closeList :
    token? (inBrackets p (']' :: rest) indents tokens)
      = some (inBlock (p.step ']') rest indents false (tokens ++ [.closeList])) := by
  simp [token?, closeBracket?, dropKey?, setKey, push, skip, moveTo, inBlock, inBrackets, inFlow,
    Input.skip]

/-! ## Runs -/

/-- The scanner goes on by one token and settles behind it, nearer to the end of the text. -/
def Steps (s t : Scanner) : Prop :=
  s.token?.bind settle? = some t ∧ t.rest.length < s.rest.length

/-- What is open at the end of the text is closed. -/
theorem finish?_inBlock (k : Nat) :
    finish? (inBlock p [] [k] b tokens) = some (inBlock p [] [] b (tokens ++ [.blockEnd])) := by
  simp [finish?, closeBlocks, dropKey?, setKey, inBlock, inFlow]

/-- A run from a settled scanner, for which the length of the text is fuel enough. -/
theorem run?_of_reaches {s t u : Scanner} (h : Relation.ReflTransGen Steps s t)
    (hend : t.rest = []) (hfinish : t.finish? = some u) :
    ∀ (start : Scanner) (fuel : Nat), start.settle? = some s → s.rest.length < fuel →
      run? fuel start = some u.tokens.toList := by
  induction h using Relation.ReflTransGen.head_induction_on with
  | refl =>
    intro start fuel hstart hfuel
    obtain ⟨fuel, rfl⟩ : ∃ n, fuel = n + 1 := ⟨fuel - 1, by omega⟩
    simp [run?, hstart, hend, hfinish]
  | @head s s' hstep _ ih =>
    intro start fuel hstart hfuel
    obtain ⟨fuel, rfl⟩ : ∃ n, fuel = n + 1 := ⟨fuel - 1, by omega⟩
    obtain ⟨hnext, hshorter⟩ := hstep
    obtain ⟨m, htoken, hsettle⟩ := Option.bind_eq_some_iff.mp hnext
    have hne : s.rest ≠ [] := by
      intro h
      rw [h] at hshorter
      exact absurd hshorter (Nat.not_lt_zero _)
    rw [run?, hstart]
    simp only [Option.bind_eq_bind, Option.bind_some, List.isEmpty_iff, hne, if_false, htoken]
    exact ih m fuel hsettle (by omega)

end Scanner

end DeclTags.Yaml
