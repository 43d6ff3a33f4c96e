import DeclTags.Json.Printer
import DeclTags.Json.Reader
import DeclTags.Proofs.Decimals
import Mathlib.Data.Bool.AllAny
import Mathlib.Data.List.DropRight
import Mathlib.Data.List.TakeWhile

set_option autoImplicit false

/-! # JSON texts are read back

The reader gives back every value from its printed text (`Json.parse?_pretty`), whatever characters
its strings are made of, if its numbers are counts (`Json.Exact`).

A value is printed at some level, and what is before and behind it is not its own. So the statement
about one value (`Json.ReadsBack`) leaves all three open: the white space before it, the level, and
the rest of the text, of which only is known that it does not go on with a number. The length of the
printed text bounds the fuel, since each item and each field has a character of its own.
-/

namespace DeclTags.Json

/-! ## Values and rests -/

/-- No number of the value is kept as it is written. -/
inductive Exact : Json → Prop where
  | null : Exact .null
  | bool (value : Bool) : Exact (.bool value)
  | nat (value : Nat) : Exact (.nat value)
  | string (value : String) : Exact (.string value)
  | list {items : List Json} (h : ∀ j ∈ items, Exact j) : Exact (.list items)
  | object {fields : List (String × Json)} (h : ∀ f ∈ fields, Exact f.2) : Exact (.object fields)

/-- The text is white space. -/
def AllSpace (cs : List Char) : Prop := ∀ c ∈ cs, isSpace c = true

/-- A number that stands before the text ends there. -/
def EndsNumber (rest : List Char) : Prop :=
  ∀ c ∈ rest.head?, c.isDigit = false ∧ c ≠ '.' ∧ c ≠ 'e' ∧ c ≠ 'E'

theorem skipSpace_append {ws : List Char} (h : AllSpace ws) (cs : List Char) :
    skipSpace (ws ++ cs) = skipSpace cs :=
  List.dropWhile_append_of_pos h

theorem skipSpace_cons {c : Char} (h : isSpace c = false) (cs : List Char) :
    skipSpace (c :: cs) = c :: cs :=
  List.dropWhile_cons_of_neg (by simp [h])

theorem endsNumber_cons {c : Char} (h : isSpace c = true ∨ c = ',' ∨ c = ']' ∨ c = '\x7d')
    (cs : List Char) : EndsNumber (c :: cs) := by
  have hc : c ∈ [' ', '\t', '\n', '\r', ',', ']', '\x7d'] := by
    simpa [isSpace, or_assoc] using h
  have key : ∀ c ∈ [' ', '\t', '\n', '\r', ',', ']', '\x7d'],
      c.isDigit = false ∧ c ≠ '.' ∧ c ≠ 'e' ∧ c ≠ 'E' := List.all_iff_forall_prop.1 (by decide)
  intro d hd
  rw [List.head?_cons, Option.mem_some_iff] at hd
  exact hd ▸ key c hc

theorem allSpace_lineBreak (level : Nat) : AllSpace (lineBreak level).toList := by
  intro c hc
  simp only [lineBreak, String.toList_append, String.toList_ofList, List.mem_append,
    List.mem_replicate] at hc
  rcases hc with hc | ⟨-, rfl⟩
  · rw [show c = '\n' by simpa using hc]
    decide
  · decide

/-! ## Numbers -/

theorem digitsValue_toDigits (n : Nat) : digitsValue (Nat.toDigits 10 n) = n := by
  induction n using Decimals.toDigits_induction with
  | one d hd =>
      simp [digitsValue, Nat.toNat_digitChar_of_lt_ten hd]
  | more n d _ hd ih =>
      rw [digitsValue] at ih ⊢
      rw [List.foldl_append, ih]
      simp [Nat.toNat_digitChar_of_lt_ten hd]

theorem partLength?_of_endsNumber (marks : List Char) {rest : List Char} {signed : Bool}
    (h : EndsNumber rest) (hmarks : ∀ c ∈ marks, c = '.' ∨ c = 'e' ∨ c = 'E') :
    partLength? marks signed rest = some 0 := by
  cases rest with
  | nil => rfl
  | cons c cs =>
      have hc := h c (by simp)
      have hmark : marks.contains c = false := by
        rw [List.contains_eq_mem, decide_eq_false_iff_not]
        intro hmem
        rcases hmarks c hmem with rfl | rfl | rfl <;> simp at hc
      rw [partLength?, if_neg (by rw [hmark]; exact Bool.false_ne_true)]

theorem takeWhile_isDigit (n : Nat) {rest : List Char} (h : EndsNumber rest) :
    (Nat.toDigits 10 n ++ rest).takeWhile Char.isDigit = Nat.toDigits 10 n := by
  have hrest : rest.takeWhile Char.isDigit = [] := by
    cases rest with
    | nil => rfl
    | cons c cs => exact List.takeWhile_cons_of_neg (by simp [(h c (by simp)).1])
  rw [List.takeWhile_append_of_pos (Decimals.isDigit_of_mem n), hrest, List.append_nil]

theorem readNumber_toDigits (n : Nat) {rest : List Char} (h : EndsNumber rest) :
    readNumber (Nat.toDigits 10 n ++ rest) = some (.nat n, rest) := by
  obtain ⟨c, cs, hcs⟩ := List.exists_cons_of_ne_nil (Nat.toDigits_ne_nil (n := n) (b := 10))
  have hc : c.isDigit = true := Decimals.isDigit_of_mem n c (by simp [hcs])
  have hsign : (Nat.toDigits 10 n ++ rest).head? ≠ some '-' := by
    rw [hcs]
    rintro hminus
    obtain rfl : c = '-' := by simpa using hminus
    exact absurd hc (by decide)
  -- a zero at the head is the whole number
  have hzero : ((Nat.toDigits 10 n).isEmpty ||
      ((Nat.toDigits 10 n).head? = some '0' && 1 < (Nat.toDigits 10 n).length)) = false := by
    by_cases hn : (Nat.toDigits 10 n).head? = some '0'
    · rw [Decimals.eq_zero_of_head? n hn]
      decide
    · simp [hn, Nat.toDigits_ne_nil]
  have hdrop : (Nat.toDigits 10 n ++ rest).drop (Nat.toDigits 10 n).length = rest :=
    List.drop_left
  simp only [readNumber, if_neg hsign, List.drop_zero, takeWhile_isDigit n h, Nat.zero_add, hzero,
    hdrop, partLength?_of_endsNumber ['.'] h (by simp),
    partLength?_of_endsNumber ['e', 'E'] h (by simp), bind, Option.bind,
    digitsValue_toDigits, Bool.false_eq_true, if_false, if_true]

/-! ## Strings -/

theorem hexValue4?_hexDigit : ∀ n < 0x20,
    hexValue4? '0' '0' (hexDigit (n / 16)) (hexDigit (n % 16)) = some n := by
  decide

/-- An escape by number stands for its character, even if another one follows it. -/
theorem stringBody_unit {h l : Char} {code : Nat} (hcode : hexValue4? '0' '0' h l = some code)
    (hsmall : code < 0x20) (read rest : List Char) :
    stringBody read ('\\' :: 'u' :: '0' :: '0' :: h :: l :: rest) =
      stringBody (Char.ofNat code :: read) rest := by
  have hhigh : isHighSurrogate code = false := by simp [isHighSurrogate]; omega
  have hlow : isLowSurrogate code = false := by simp [isLowSurrogate]; omega
  rw [stringBody.eq_def]
  split <;> rename_i heq <;> simp only [List.cons.injEq, reduceCtorEq, Char.reduceEq, false_and,
    true_and] at heq
  · obtain ⟨rfl, rfl, rfl, rfl, rfl⟩ := heq
    simp [hcode, hhigh, hlow]
  · obtain ⟨rfl, rfl, rfl, rfl, rfl⟩ := heq
    simp [hcode, hhigh, hlow]
  · next hshort =>
      obtain ⟨rfl, rfl⟩ := heq
      exact absurd rfl (hshort '0' '0' h l rest rfl)
  · next hshort =>
      obtain ⟨rfl, rfl⟩ := heq
      exact absurd rfl (hshort 'u' _ rfl)

theorem stringBody_escaped (read : List Char) (c : Char) (rest : List Char) :
    stringBody read (escaped c ++ rest) = stringBody (c :: read) rest := by
  rw [escaped]
  split
  · next hc => subst hc; simp [stringBody, simpleEscape?]
  split
  · next hc => subst hc; simp [stringBody, simpleEscape?]
  split
  · next hc => subst hc; simp [stringBody, simpleEscape?]
  split
  · next hc => subst hc; simp [stringBody, simpleEscape?]
  split
  · next hc => subst hc; simp [stringBody, simpleEscape?]
  split
  · next hc => subst hc; simp [stringBody, simpleEscape?]
  split
  · next hc => subst hc; simp [stringBody, simpleEscape?]
  split
  · next hc =>
      have hunit := stringBody_unit (hexValue4?_hexDigit c.toNat hc) hc read rest
      rwa [Char.ofNat_toNat] at hunit
  · next hquote hbackslash _ _ _ _ _ hc =>
      rw [List.singleton_append, stringBody.eq_def]
      split <;> simp_all

theorem stringBody_quoted (cs read rest : List Char) :
    stringBody read (cs.flatMap escaped ++ '"' :: rest) =
      some (String.ofList (read.reverse ++ cs), rest) := by
  induction cs generalizing read with
  | nil => simp [stringBody]
  | cons c cs ih =>
      rw [List.flatMap_cons, List.append_assoc, stringBody_escaped, ih]
      simp

theorem toList_quoted (s : String) :
    (quoted s).toList = '"' :: (s.toList.flatMap escaped ++ ['"']) := by
  simp [quoted]

theorem readString_quoted (s : String) (rest : List Char) :
    readString ((quoted s).toList ++ rest) = some (s, rest) := by
  rw [toList_quoted]
  simp [readString, stringBody_quoted]

/-! ## Values -/

/-- The value is read from its text at any level, white space before it, as long as a number ends
where the text does. -/
def ReadsBack (j : Json) : Prop :=
  ∀ (level fuel : Nat) (ws rest : List Char), AllSpace ws → EndsNumber rest →
    (j.prettyAt level).toList.length ≤ fuel →
    readValue fuel (ws ++ ((j.prettyAt level).toList ++ rest)) = some (j, rest)

theorem readValue_append {ws : List Char} (hws : AllSpace ws) (fuel : Nat) (cs : List Char) :
    readValue fuel (ws ++ cs) = readValue fuel cs := by
  cases fuel with
  | zero => rw [readValue, readValue]
  | succ fuel => rw [readValue, readValue, skipSpace_append hws]

theorem skipSpace_skipSpace (cs : List Char) : skipSpace (skipSpace cs) = skipSpace cs :=
  List.dropWhile_idempotent isSpace cs

theorem readItems_skipSpace (fuel : Nat) (cs : List Char) :
    readItems fuel (skipSpace cs) = readItems fuel cs := by
  have hvalue : ∀ n, readValue n (skipSpace cs) = readValue n cs := by
    intro n
    cases n with
    | zero => rw [readValue, readValue]
    | succ n => rw [readValue, readValue, skipSpace_skipSpace]
  cases fuel with
  | zero => rw [readItems, readItems]
  | succ fuel => rw [readItems, readItems, hvalue]

theorem readFields_skipSpace (fuel : Nat) (cs : List Char) :
    readFields fuel (skipSpace cs) = readFields fuel cs := by
  cases fuel with
  | zero => rw [readFields, readFields]
  | succ fuel => rw [readFields, readFields, skipSpace_skipSpace]

theorem prettyItems_eq_map (level : Nat) (items : List Json) :
    prettyItems level items = items.map (prettyAt level) := by
  induction items with
  | nil => rfl
  | cons item items ih => rw [prettyItems, ih, List.map_cons]

/-- A field at some level. -/
def fieldText (level : Nat) (f : String × Json) : String :=
  quoted f.1 ++ ": " ++ prettyAt level f.2

theorem prettyFields_eq_map (level : Nat) (fields : List (String × Json)) :
    prettyFields level fields = fields.map (fieldText level) := by
  induction fields with
  | nil => rfl
  | cons f fields ih => rw [prettyFields, ih, List.map_cons, fieldText]

/-- The parts of a list or object, with what stands between them, and all after them up to the
closing bracket `closing`. -/
def partsText (level : Nat) (parts : List String) (closing : Char) (rest : List Char) : List Char :=
  (String.intercalate ("," ++ lineBreak (level + 1)) parts).toList ++
    ((lineBreak level).toList ++ closing :: rest)

theorem toList_block (level : Nat) {opening closing : String} {o c : Char}
    (ho : opening.toList = [o]) (hc : closing.toList = [c]) {parts : List String} (h : parts ≠ [])
    (rest : List Char) :
    (block level opening closing parts).toList ++ rest =
      o :: ((lineBreak (level + 1)).toList ++ partsText level parts c rest) := by
  simp [block, h, partsText, ho, hc]

theorem partsText_singleton (level : Nat) (part : String) (closing : Char) (rest : List Char) :
    partsText level [part] closing rest =
      part.toList ++ ((lineBreak level).toList ++ closing :: rest) := by
  rw [partsText, String.intercalate_singleton]

theorem partsText_cons_cons (level : Nat) (part next : String) (parts : List String)
    (closing : Char) (rest : List Char) :
    partsText level (part :: next :: parts) closing rest =
      part.toList ++
        (',' :: ((lineBreak (level + 1)).toList ++
          partsText level (next :: parts) closing rest)) := by
  rw [partsText, String.intercalate_cons_cons]
  simp [partsText]

theorem skipSpace_closing (level : Nat) (closing : Char) (h : isSpace closing = false)
    (rest : List Char) :
    skipSpace ((lineBreak level).toList ++ closing :: rest) = closing :: rest := by
  rw [skipSpace_append (allSpace_lineBreak level), skipSpace_cons h]

theorem endsNumber_lineBreak (level : Nat) (cs : List Char) :
    EndsNumber ((lineBreak level).toList ++ cs) := by
  have hcs : (lineBreak level).toList ++ cs =
      '\n' :: (List.replicate (2 * level) ' ' ++ cs) := by
    simp [lineBreak]
  rw [hcs]
  exact endsNumber_cons (Or.inl (by decide)) _

theorem exists_fuel {level fuel : Nat} {parts : List String} {closing : Char}
    (h : (partsText level parts closing []).length ≤ fuel) : ∃ n, fuel = n + 1 := by
  cases fuel with
  | zero => simp [partsText] at h
  | succ n => exact ⟨n, rfl⟩

/-! ### Items -/

theorem readItems_last {item : Json} (h : ReadsBack item) (level : Nat) {fuel : Nat}
    {ws : List Char} (hws : AllSpace ws) (rest : List Char)
    (hfuel : (prettyAt (level + 1) item).toList.length ≤ fuel) :
    readItems (fuel + 1) (ws ++ ((prettyAt (level + 1) item).toList ++
      ((lineBreak level).toList ++ ']' :: rest))) = some ([item], rest) := by
  rw [readItems, h _ fuel ws _ hws (endsNumber_lineBreak level _) hfuel]
  simp [skipSpace_closing level ']' (by decide)]

theorem readItems_more {item : Json} (h : ReadsBack item) (level : Nat) {fuel : Nat}
    {ws : List Char} (hws : AllSpace ws) (more : List Char)
    (hfuel : (prettyAt (level + 1) item).toList.length ≤ fuel) :
    readItems (fuel + 1) (ws ++ ((prettyAt (level + 1) item).toList ++ (',' :: more))) =
      (readItems fuel more).map fun (items, rest) => (item :: items, rest) := by
  have hcomma : EndsNumber (',' :: more) := endsNumber_cons (Or.inr (Or.inl rfl)) more
  rw [readItems, h _ fuel ws _ hws hcomma hfuel]
  simp only [bind, Option.bind, skipSpace_cons (c := ',') (by decide)]
  cases readItems fuel more <;> rfl

theorem readItems_closing {fuel : Nat} {cs rest : List Char} (h : skipSpace cs = ']' :: rest) :
    readItems fuel cs = none := by
  match fuel with
  | 0 => rw [readItems]
  | 1 => simp [readItems, readValue]
  | fuel + 2 =>
    have hvalue : readValue (fuel + 1) cs = none := by
      rw [readValue, h]
      simp [readWord]
    simp [readItems, hvalue]

theorem readItems_partsText (level : Nat) {item : Json} {items : List Json}
    (h : ∀ j ∈ item :: items, ReadsBack j) (fuel : Nat) {ws : List Char} (hws : AllSpace ws)
    (rest : List Char)
    (hfuel : (partsText level ((item :: items).map (prettyAt (level + 1))) ']' []).length ≤ fuel) :
    readItems fuel
        (ws ++ partsText level ((item :: items).map (prettyAt (level + 1))) ']' rest) =
      some (item :: items, rest) := by
  have hitem := h item List.mem_cons_self
  induction items generalizing item fuel ws with
  | nil =>
      obtain ⟨fuel, rfl⟩ := exists_fuel hfuel
      rw [List.map_singleton, partsText_singleton] at hfuel ⊢
      simp only [List.length_append, List.length_cons] at hfuel
      exact readItems_last hitem level hws rest (by omega)
  | cons next items ih =>
      obtain ⟨fuel, rfl⟩ := exists_fuel hfuel
      rw [List.map_cons, List.map_cons, partsText_cons_cons, ← List.map_cons] at hfuel ⊢
      simp only [List.length_append, List.length_cons] at hfuel
      have hitems := ih (fun j hj => h j (List.mem_cons_of_mem _ hj)) fuel
        (allSpace_lineBreak (level + 1)) (by omega) (h next (by simp))
      rw [readItems_more hitem level hws _ (by omega), hitems, Option.map_some]

/-! ### Fields -/

theorem readString_fieldText (f : String × Json) (level : Nat) {ws : List Char}
    (hws : AllSpace ws) (rest : List Char) :
    readString (skipSpace (ws ++ ((fieldText level f).toList ++ rest))) =
      some (f.1, ':' :: ([' '] ++ ((prettyAt level f.2).toList ++ rest))) := by
  have htext : (fieldText level f).toList ++ rest =
      (quoted f.1).toList ++ (':' :: ([' '] ++ ((prettyAt level f.2).toList ++ rest))) := by
    simp [fieldText]
  rw [skipSpace_append hws, htext, toList_quoted, List.cons_append, skipSpace_cons (by decide),
    ← List.cons_append, ← toList_quoted, readString_quoted]

theorem readValue_field {f : String × Json} (h : ReadsBack f.2) {level fuel : Nat}
    {rest : List Char} (hrest : EndsNumber rest)
    (hfuel : (fieldText level f).toList.length ≤ fuel) :
    readValue fuel ([' '] ++ ((prettyAt level f.2).toList ++ rest)) = some (f.2, rest) := by
  have hspace : AllSpace [' '] := by
    intro c hc
    rw [List.mem_singleton.mp hc]
    decide
  apply h level fuel [' '] rest hspace hrest
  simp [fieldText] at hfuel
  omega

theorem readFields_last {f : String × Json} (h : ReadsBack f.2) (level : Nat) {fuel : Nat}
    {ws : List Char} (hws : AllSpace ws) (rest : List Char)
    (hfuel : (fieldText (level + 1) f).toList.length ≤ fuel) :
    readFields (fuel + 1) (ws ++ ((fieldText (level + 1) f).toList ++
      ((lineBreak level).toList ++ '\x7d' :: rest))) = some ([f], rest) := by
  rw [readFields, readString_fieldText f _ hws]
  simp only [bind, Option.bind, skipSpace_cons (c := ':') (by decide),
    readValue_field h (endsNumber_lineBreak level _) hfuel,
    skipSpace_closing level '\x7d' (by decide)]

theorem readFields_more {f : String × Json} (h : ReadsBack f.2) (level : Nat) {fuel : Nat}
    {ws : List Char} (hws : AllSpace ws) (more : List Char)
    (hfuel : (fieldText (level + 1) f).toList.length ≤ fuel) :
    readFields (fuel + 1) (ws ++ ((fieldText (level + 1) f).toList ++ (',' :: more))) =
      (readFields fuel more).map fun (fields, rest) => (f :: fields, rest) := by
  have hcomma : EndsNumber (',' :: more) := endsNumber_cons (Or.inr (Or.inl rfl)) more
  rw [readFields, readString_fieldText f _ hws]
  simp only [bind, Option.bind, skipSpace_cons (c := ':') (by decide),
    readValue_field h hcomma hfuel, skipSpace_cons (c := ',') (by decide)]
  cases readFields fuel more <;> rfl

theorem readFields_closing {fuel : Nat} {cs rest : List Char}
    (h : skipSpace cs = '\x7d' :: rest) : readFields fuel cs = none := by
  cases fuel with
  | zero => rw [readFields]
  | succ fuel => simp [readFields, h, readString]

theorem readFields_partsText (level : Nat) {f : String × Json} {fields : List (String × Json)}
    (h : ∀ g ∈ f :: fields, ReadsBack g.2) (fuel : Nat) {ws : List Char} (hws : AllSpace ws)
    (rest : List Char)
    (hfuel : (partsText level ((f :: fields).map (fieldText (level + 1))) '\x7d' []).length ≤
      fuel) :
    readFields fuel
        (ws ++ partsText level ((f :: fields).map (fieldText (level + 1))) '\x7d' rest) =
      some (f :: fields, rest) := by
  have hf := h f List.mem_cons_self
  induction fields generalizing f fuel ws with
  | nil =>
      obtain ⟨fuel, rfl⟩ := exists_fuel hfuel
      rw [List.map_singleton, partsText_singleton] at hfuel ⊢
      simp only [List.length_append, List.length_cons] at hfuel
      exact readFields_last hf level hws rest (by omega)
  | cons next fields ih =>
      obtain ⟨fuel, rfl⟩ := exists_fuel hfuel
      rw [List.map_cons, List.map_cons, partsText_cons_cons, ← List.map_cons] at hfuel ⊢
      simp only [List.length_append, List.length_cons] at hfuel
      have hfields := ih (fun g hg => h g (List.mem_cons_of_mem _ hg)) fuel
        (allSpace_lineBreak (level + 1)) (by omega) (h next (by simp))
      rw [readFields_more hf level hws _ (by omega), hfields, Option.map_some]

/-! ### All values -/

/-- It is enough to read the value without white space before it, with fuel. -/
theorem ReadsBack.of_head {j : Json} (hne : ∀ level, (j.prettyAt level).toList ≠ [])
    (h : ∀ (level fuel : Nat) (rest : List Char), EndsNumber rest →
      (j.prettyAt level).toList.length ≤ fuel + 1 →
      readValue (fuel + 1) ((j.prettyAt level).toList ++ rest) = some (j, rest)) :
    ReadsBack j := by
  intro level fuel ws rest hws hrest hfuel
  rw [readValue_append hws]
  cases fuel with
  | zero => exact absurd (List.length_eq_zero_iff.mp (Nat.le_zero.mp hfuel)) (hne level)
  | succ fuel => exact h level fuel rest hrest hfuel

theorem readsBack_nat (n : Nat) : ReadsBack (.nat n) := by
  obtain ⟨c, cs, hcs⟩ := List.exists_cons_of_ne_nil (Nat.toDigits_ne_nil (n := n) (b := 10))
  have htext : ∀ level, (prettyAt level (.nat n)).toList = c :: cs := by
    intro level
    rw [prettyAt, Decimals.toList_toString, hcs]
  have hc : c.isDigit = true := Decimals.isDigit_of_mem n c (by simp [hcs])
  have hspace : isSpace c = false := by
    rw [← Bool.not_eq_true]
    intro hspace
    simp only [isSpace, Bool.or_eq_true, decide_eq_true_eq] at hspace
    rcases hspace with ((rfl | rfl) | rfl) | rfl <;> exact absurd hc (by decide)
  apply ReadsBack.of_head (by simp [htext])
  intro level fuel rest hrest _
  have hread := readNumber_toDigits n hrest
  rw [hcs, List.cons_append] at hread
  rw [htext, List.cons_append, readValue, skipSpace_cons hspace]
  split <;> simp_all

theorem readsBack_string (s : String) : ReadsBack (.string s) := by
  apply ReadsBack.of_head (by simp [prettyAt, toList_quoted])
  intro level fuel rest _ _
  rw [prettyAt, toList_quoted, List.cons_append, readValue, skipSpace_cons (by decide)]
  simp [stringBody_quoted]

theorem readsBack_list {items : List Json} (h : ∀ j ∈ items, ReadsBack j) :
    ReadsBack (.list items) := by
  cases items with
  | nil =>
      apply ReadsBack.of_head (by simp [prettyAt, block, prettyItems])
      intro level fuel rest _ _
      simp [prettyAt, block, prettyItems, readValue, skipSpace_cons (c := '[') (by decide),
        skipSpace_cons (c := ']') (by decide)]
  | cons item items =>
      have htext : ∀ level rest, (prettyAt level (.list (item :: items))).toList ++ rest =
          '[' :: ((lineBreak (level + 1)).toList ++
            partsText level ((item :: items).map (prettyAt (level + 1))) ']' rest) := by
        intro level rest
        rw [prettyAt, prettyItems_eq_map]
        exact toList_block level rfl rfl (by simp) rest
      apply ReadsBack.of_head
      · intro level hnil
        have := htext level []
        simp [hnil] at this
      intro level fuel rest _ hfuel
      have hlength := congrArg List.length (htext level [])
      simp only [List.append_nil, List.length_cons, List.length_append] at hlength
      have hitems := readItems_partsText level h fuel (allSpace_lineBreak (level + 1)) rest
        (by omega)
      rw [htext, readValue, skipSpace_cons (by decide)]
      simp only
      split
      · next hclosing =>
          rw [readItems_closing hclosing] at hitems
          cases hitems
      · rw [readItems_skipSpace, hitems, Option.map_some]

theorem readsBack_object {fields : List (String × Json)} (h : ∀ f ∈ fields, ReadsBack f.2) :
    ReadsBack (.object fields) := by
  cases fields with
  | nil =>
      apply ReadsBack.of_head (by simp [prettyAt, block, prettyFields])
      intro level fuel rest _ _
      simp [prettyAt, block, prettyFields, readValue, skipSpace_cons (c := '\x7b') (by decide),
        skipSpace_cons (c := '\x7d') (by decide)]
  | cons f fields =>
      have htext : ∀ level rest, (prettyAt level (.object (f :: fields))).toList ++ rest =
          '\x7b' :: ((lineBreak (level + 1)).toList ++
            partsText level ((f :: fields).map (fieldText (level + 1))) '\x7d' rest) := by
        intro level rest
        rw [prettyAt, prettyFields_eq_map]
        exact toList_block level rfl rfl (by simp) rest
      apply ReadsBack.of_head
      · intro level hnil
        have := htext level []
        simp [hnil] at this
      intro level fuel rest _ hfuel
      have hlength := congrArg List.length (htext level [])
      simp only [List.append_nil, List.length_cons, List.length_append] at hlength
      have hfields := readFields_partsText level h fuel (allSpace_lineBreak (level + 1)) rest
        (by omega)
      rw [htext, readValue, skipSpace_cons (by decide)]
      simp only
      split
      · next hclosing =>
          rw [readFields_closing hclosing] at hfields
          cases hfields
      · rw [readFields_skipSpace, hfields, Option.map_some]

theorem readsBack_of_exact {j : Json} (h : Exact j) : ReadsBack j := by
  induction h with
  | null =>
      apply ReadsBack.of_head (by simp [prettyAt])
      intro level fuel rest _ _
      simp [prettyAt, readValue, skipSpace_cons (c := 'n') (by decide), readWord]
  | bool value =>
      cases value with
      | true =>
          apply ReadsBack.of_head (by simp [prettyAt])
          intro level fuel rest _ _
          simp [prettyAt, readValue, skipSpace_cons (c := 't') (by decide), readWord]
      | false =>
          apply ReadsBack.of_head (by simp [prettyAt])
          intro level fuel rest _ _
          simp [prettyAt, readValue, skipSpace_cons (c := 'f') (by decide), readWord]
  | nat value => exact readsBack_nat value
  | string value => exact readsBack_string value
  | list _ ih => exact readsBack_list ih
  | object _ ih => exact readsBack_object ih

/-- Reading the printed text gives the value, with or without a line end behind it. -/
theorem parse?_pretty {j : Json} (h : Exact j) {after : List Char} (hafter : AllSpace after) :
    parse? (j.pretty ++ String.ofList after) = some j := by
  have hends : EndsNumber after := by
    cases after with
    | nil => intro c hc; cases hc
    | cons c cs => exact endsNumber_cons (Or.inl (hafter c (by simp))) cs
  have hread := readsBack_of_exact h 0 ((j.pretty ++ String.ofList after).length + 1) [] after
    (by intro c hc; cases hc) hends (by
      rw [← String.length_toList, String.toList_append, List.length_append]
      simp only [pretty]
      omega)
  rw [List.nil_append] at hread
  rw [parse?, String.toList_append, String.toList_ofList]
  rw [pretty] at hread ⊢
  rw [hread]
  have hskip : skipSpace after = [] := by
    rw [skipSpace, List.dropWhile_eq_nil_iff]
    exact hafter
  simp [hskip]

end DeclTags.Json
