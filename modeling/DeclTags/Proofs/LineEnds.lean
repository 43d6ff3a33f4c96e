import DeclTags.Proofs.Cuts
import Mathlib.Data.List.Basic
import Mathlib.Data.List.TakeWhile

set_option autoImplicit false

/-! # Line ends

A text may end its lines with a line feed, or with a carriage return and a line feed. The lexer
takes either for the end of a line: if no marker has a line end in it, the lexeme at the head of a
text is the one at the head of the text with carriage returns, apart from the carriage returns in it
(`Lexeme.atHead_withReturns`). There is one kind of lexeme for which this does not hold: a quoted
literal that takes a line feed along, which only a backslash can do.

The lemmas follow the readers: line comments and white space leave a carriage return at their end
to the line end, block comments and verbatim strings contain it, words and numbers stop before it.
-/

namespace DeclTags

/-! ## Texts with carriage returns -/

namespace Text

/-- The text with a carriage return before each line feed. -/
def withReturns (cs : List Char) : List Char :=
  cs.flatMap fun c => if c = '\n' then ['\r', '\n'] else [c]

/-- No line ends in the text. -/
def InLine (cs : List Char) : Prop := ∀ c ∈ cs, c ≠ '\r' ∧ c ≠ '\n'

@[simp] theorem withReturns_nil : withReturns [] = [] := rfl

@[simp] theorem withReturns_append (cs ds : List Char) :
    withReturns (cs ++ ds) = withReturns cs ++ withReturns ds := List.flatMap_append

@[simp] theorem withReturns_feed (cs : List Char) :
    withReturns ('\n' :: cs) = '\r' :: '\n' :: withReturns cs := rfl

theorem withReturns_cons {c : Char} (h : c ≠ '\n') (cs : List Char) :
    withReturns (c :: cs) = c :: withReturns cs := by
  rw [withReturns, List.flatMap_cons, if_neg h]
  rfl

/-- Within a line nothing changes. -/
theorem withReturns_eq_self {cs : List Char} (h : '\n' ∉ cs) : withReturns cs = cs := by
  induction cs with
  | nil => rfl
  | cons c cs ih =>
      have hc : c ≠ '\n' := fun hc => h (hc ▸ List.mem_cons_self)
      rw [withReturns_cons hc, ih fun hmem => h (List.mem_cons_of_mem c hmem)]

/-- The first line of a text gets a carriage return at its end. -/
theorem withReturns_line {line : List Char} (h : '\n' ∉ line) (rest : List Char) :
    withReturns (line ++ '\n' :: rest) = (line ++ ['\r']) ++ '\n' :: withReturns rest := by
  rw [withReturns_append, withReturns_eq_self h, withReturns_feed, List.append_assoc,
    List.singleton_append]

theorem InLine.not_mem_feed {cs : List Char} (h : InLine cs) : '\n' ∉ cs :=
  fun hmem => (h _ hmem).2 rfl

theorem InLine.withReturns {cs : List Char} (h : InLine cs) : withReturns cs = cs :=
  withReturns_eq_self h.not_mem_feed

theorem InLine.tail {c : Char} {cs : List Char} (h : InLine (c :: cs)) : InLine cs :=
  fun d hd => h d (List.mem_cons_of_mem c hd)

/-- What stands in one line stands at the head of a text with carriage returns if it does without
them. -/
theorem isPrefixOf_withReturns {marker : List Char} (hm : InLine marker) (cs : List Char) :
    marker.isPrefixOf (withReturns cs) = marker.isPrefixOf cs := by
  induction marker generalizing cs with
  | nil => cases cs <;> rfl
  | cons m marker ih =>
      obtain ⟨hreturn, hfeed⟩ := hm m List.mem_cons_self
      cases cs with
      | nil => rfl
      | cons c cs =>
          by_cases hc : c = '\n'
          · -- neither the carriage return nor the line feed is the first character of the marker
            subst hc
            have hr : (m == '\r') = false := beq_eq_false_iff_ne.mpr hreturn
            have hf : (m == '\n') = false := beq_eq_false_iff_ne.mpr hfeed
            rw [withReturns_feed, List.isPrefixOf, List.isPrefixOf, hr, hf, Bool.false_and,
              Bool.false_and]
          · rw [withReturns_cons hc, List.isPrefixOf, List.isPrefixOf, ih hm.tail]

theorem findFrom_of_isPrefixOf {marker cs : List Char} (h : marker.isPrefixOf cs = true)
    (k : Nat) : findFrom marker k cs = some k := by
  cases cs with
  | nil =>
      have hnil : marker = [] := List.prefix_nil.mp (List.isPrefixOf_iff_prefix.mp h)
      subst hnil
      rfl
  | cons c cs => rw [findFrom, if_pos h]

/-- What is found stands where it is found. -/
theorem isPrefixOf_of_findFrom {marker cs : List Char} {k n : Nat}
    (h : findFrom marker k cs = some n) : ∃ rest, cs.drop (n - k) = marker ++ rest := by
  induction cs generalizing k with
  | nil =>
      rw [findFrom] at h
      split at h
      · next hnil => exact ⟨[], by rw [List.isEmpty_iff.mp hnil, List.drop_nil]; rfl⟩
      · cases h
  | cons c cs ih =>
      rw [findFrom] at h
      split at h
      · next hp =>
        cases h
        obtain ⟨rest, hrest⟩ := List.isPrefixOf_iff_prefix.mp hp
        exact ⟨rest, by rw [Nat.sub_self, List.drop_zero, hrest]⟩
      · obtain ⟨rest, hrest⟩ := ih h
        have hle : k + 1 ≤ n := (findFrom_append [] h).1
        have hsize : n - k = n - (k + 1) + 1 := by omega
        exact ⟨rest, by rw [hsize, List.drop_succ_cons, hrest]⟩

/-- With carriage returns in the text, a marker is found behind the same characters. -/
theorem findFrom_withReturns {marker : List Char} (hm : InLine marker) (k j : Nat)
    (cs : List Char) :
    match findFrom marker k cs with
    | some n => k ≤ n ∧
        findFrom marker j (withReturns cs) = some (j + (withReturns (cs.take (n - k))).length)
    | none => findFrom marker j (withReturns cs) = none := by
  induction cs generalizing k j with
  | nil =>
      rw [withReturns_nil, findFrom, findFrom]
      split
      · next hfound =>
        split at hfound
        · cases hfound
          exact ⟨Nat.le_refl _, by simp_all⟩
        · cases hfound
      · next hfound =>
        split at hfound
        · cases hfound
        · exact if_neg ‹_›
  | cons c cs ih =>
      by_cases hp : marker.isPrefixOf (c :: cs) = true
      · rw [findFrom, if_pos hp]
        have hp' := (isPrefixOf_withReturns hm (c :: cs)).trans hp
        refine ⟨Nat.le_refl _, ?_⟩
        rw [findFrom_of_isPrefixOf hp', Nat.sub_self]
        rfl
      · have hp' : ¬marker.isPrefixOf (withReturns (c :: cs)) = true := by
          rwa [isPrefixOf_withReturns hm]
        -- the search goes on behind the character, or behind both characters of the line end
        have hskip : ∃ i, findFrom marker j (withReturns (c :: cs)) =
            findFrom marker (j + i) (withReturns cs) ∧
            ∀ m, (withReturns ((c :: cs).take (m + 1))).length =
              i + (withReturns (cs.take m)).length := by
          by_cases hc : c = '\n'
          · subst hc
            have hfeed : ¬marker.isPrefixOf ('\n' :: withReturns cs) = true := by
              intro hq
              cases marker with
              | nil => exact hp rfl
              | cons m marker =>
                  obtain ⟨rest, hrest⟩ := List.isPrefixOf_iff_prefix.mp hq
                  exact (hm m List.mem_cons_self).2 (List.cons.inj hrest).1
            rw [withReturns_feed] at hp'
            refine ⟨2, ?_, fun m => ?_⟩
            · rw [withReturns_feed, findFrom, if_neg hp', findFrom, if_neg hfeed]
            · rw [List.take_succ_cons, withReturns_feed, List.length_cons, List.length_cons]
              omega
          · rw [withReturns_cons hc] at hp'
            refine ⟨1, ?_, fun m => ?_⟩
            · rw [withReturns_cons hc, findFrom, if_neg hp']
            · rw [List.take_succ_cons, withReturns_cons hc, List.length_cons]
              omega
        obtain ⟨i, hfind, hlength⟩ := hskip
        rw [findFrom, if_neg hp, hfind]
        have hrest := ih (k + 1) (j + i)
        revert hrest
        cases findFrom marker (k + 1) cs with
        | none => exact id
        | some n =>
            rintro ⟨hle, hn⟩
            have hsize : n - k = n - (k + 1) + 1 := by omega
            refine ⟨by omega, ?_⟩
            rw [hn, hsize, hlength, Nat.add_assoc]

end Text

/-- No marker with which a comment or a verbatim string begins or ends has a line end in it. -/
structure Grammar.MarkersInLine (g : Grammar) : Prop where
  line : ∀ marker, g.lineComment = some marker → Text.InLine marker.toList
  block : ∀ opening closing, g.blockComment = some (opening, closing) →
    Text.InLine opening.toList ∧ Text.InLine closing.toList
  verbatim : ∀ marker ∈ g.verbatimPrefixes, Text.InLine marker.toList

/-- No line end is the delimiter of a verbatim string. -/
def Grammar.DelimitersInLine (g : Grammar) : Prop :=
  g.verbatimPrefixes ≠ [] → g.isStringDelimiter '\r' = false ∧ g.isStringDelimiter '\n' = false

namespace Lexeme

open Text (withReturns)

variable {g : Grammar} {cs : List Char}

/-- The lexeme at the head of a text, as it is read with carriage returns in the text. -/
def withReturns (cs : List Char) (x : Lexeme) : Lexeme :=
  { x with size := (Text.withReturns (cs.take x.size)).length }

/-! ## Comments and white space -/

/-- Without carriage returns there is none to leave away. -/
theorem sizeBeforeReturn_of_not_mem (h : '\r' ∉ cs) (n : Nat) : sizeBeforeReturn n cs = n := by
  refine if_neg fun hlast => h ?_
  exact List.mem_of_mem_take (List.mem_of_getLast? hlast)

/-- A run of characters goes on over a carriage return, if it may contain one, and stops before the
line feed. -/
theorem takeWhile_withReturns {p : Char → Bool} (hp : p '\n' = false) (cs : List Char) :
    (Text.withReturns cs).takeWhile p = cs.takeWhile p ++
      if p '\r' && (cs.dropWhile p).head? == some '\n' then ['\r'] else [] := by
  induction cs with
  | nil => simp
  | cons c cs ih =>
      by_cases hc : c = '\n'
      · subst hc
        rw [Text.withReturns_feed, List.takeWhile_cons_of_neg (l := cs) (by simp [hp]),
          List.dropWhile_cons_of_neg (by simp [hp])]
        cases hr : p '\r' with
        | false => rw [List.takeWhile_cons_of_neg (by simp [hr])]; rfl
        | true =>
            rw [List.takeWhile_cons_of_pos hr, List.takeWhile_cons_of_neg (by simp [hp])]
            rfl
      · rw [Text.withReturns_cons hc]
        by_cases hpc : p c = true
        · rw [List.takeWhile_cons_of_pos hpc, List.takeWhile_cons_of_pos hpc,
            List.dropWhile_cons_of_pos hpc, ih, List.cons_append]
        · rw [List.takeWhile_cons_of_neg hpc, List.takeWhile_cons_of_neg hpc,
            List.dropWhile_cons_of_neg hpc, List.head?_cons]
          simp [hc]

/-- No line feed stands in a run of characters other than line feeds. -/
theorem not_mem_takeWhile {p : Char → Bool} (hp : p '\n' = false) (cs : List Char) :
    '\n' ∉ cs.takeWhile p := by
  intro hmem
  rw [List.mem_takeWhile_imp hmem] at hp
  cases hp

theorem length_withReturns_takeWhile {p : Char → Bool} (hp : p '\n' = false) (cs : List Char) :
    (Text.withReturns (cs.take (cs.takeWhile p).length)).length = (cs.takeWhile p).length := by
  rw [Text.take_length_takeWhile, Text.withReturns_eq_self (not_mem_takeWhile hp cs)]

/-- Without the carriage return at its end, a run is as long as before. -/
theorem sizeBeforeReturn_takeWhile {p : Char → Bool} (hp : p '\n' = false) (hr : '\r' ∉ cs) :
    sizeBeforeReturn ((Text.withReturns cs).takeWhile p).length (Text.withReturns cs) =
      (cs.takeWhile p).length := by
  rw [sizeBeforeReturn, Text.take_length_takeWhile, takeWhile_withReturns hp]
  by_cases hline : (p '\r' && (cs.dropWhile p).head? == some '\n') = true
  · rw [if_pos hline, List.getLast?_concat, if_pos rfl, List.length_append]
    exact Nat.add_sub_cancel _ _
  · rw [if_neg hline, List.append_nil, if_neg]
    intro hlast
    exact hr ((List.takeWhile_prefix p).subset (List.mem_of_getLast? hlast))

theorem lineComment_withReturns (hr : '\r' ∉ cs) :
    lineComment (Text.withReturns cs) = (lineComment cs).withReturns cs := by
  have hp : (fun c : Char => decide (c ≠ '\n')) '\n' = false := by decide
  rw [lineComment, sizeBeforeReturn_takeWhile hp hr, lineComment, sizeBeforeReturn_of_not_mem hr,
    withReturns, length_withReturns_takeWhile hp]

theorem blank_withReturns (hr : '\r' ∉ cs) :
    blank (Text.withReturns cs) = (blank cs).withReturns cs := by
  let p : Char → Bool := fun c => Text.isBlank c && decide (c ≠ '\n')
  have hp : p '\n' = false := by decide
  have hsize : (blank cs).size = (cs.takeWhile p).length := by
    simp only [blank, sizeBeforeReturn_of_not_mem hr, ite_self]
    rfl
  have hsize' : (blank (Text.withReturns cs)).size = (cs.takeWhile p).length := by
    simp only [blank]
    split
    · exact sizeBeforeReturn_takeWhile hp hr
    · next hnext =>
      -- no line feed follows, so no carriage return was taken along
      have hline : ¬(p '\r' && (cs.dropWhile p).head? == some '\n') = true := by
        intro hline
        refine hnext ?_
        show ((Text.withReturns cs).drop ((Text.withReturns cs).takeWhile p).length).head? = _
        obtain ⟨rest, hrest⟩ : ∃ rest, cs.dropWhile p = '\n' :: rest :=
          List.head?_eq_some_iff.mp (beq_iff_eq.mp (Bool.and_eq_true_iff.mp hline).2)
        have hfeed : '\n' ∉ cs.takeWhile p := not_mem_takeWhile hp cs
        have hsplit : Text.withReturns cs =
            (cs.takeWhile p ++ ['\r']) ++ '\n' :: Text.withReturns rest := by
          conv_lhs => rw [← List.takeWhile_append_dropWhile (p := p) (l := cs), hrest]
          exact Text.withReturns_line hfeed rest
        rw [takeWhile_withReturns hp, if_pos hline, hsplit, List.drop_left]
        rfl
      have htake := takeWhile_withReturns hp cs
      rw [if_neg hline, List.append_nil] at htake
      exact congrArg List.length htake
  have hlength : (Text.withReturns (cs.take (blank cs).size)).length = (blank cs).size := by
    rw [hsize, length_withReturns_takeWhile hp]
  show (⟨.blank, (blank (Text.withReturns cs)).size, true⟩ : Lexeme) = ⟨.blank, _, true⟩
  rw [hsize', hlength, hsize]

/-- A run that may not contain a carriage return is the same. -/
theorem takeWhile_withReturns_of_not {p : Char → Bool} (hp : p '\n' = false)
    (hr : p '\r' = false) (cs : List Char) :
    (Text.withReturns cs).takeWhile p = cs.takeWhile p := by
  rw [takeWhile_withReturns hp, hr]
  exact List.append_nil _

theorem word_withReturns (g : Grammar) (cs : List Char) :
    word g (Text.withReturns cs) = (word g cs).withReturns cs := by
  have hp : isWordChar '\n' = false := by decide
  simp only [word, withReturns, takeWhile_withReturns_of_not hp (by decide),
    length_withReturns_takeWhile hp]

theorem number_withReturns (cs : List Char) :
    number (Text.withReturns cs) = (number cs).withReturns cs := by
  have hp : isNumberChar '\n' = false := by decide
  simp only [number, withReturns, takeWhile_withReturns_of_not hp (by decide),
    length_withReturns_takeWhile hp]

/-! ## Markers -/

theorem startsWith_withReturns {marker : String} (hm : Text.InLine marker.toList)
    (cs : List Char) : startsWith (Text.withReturns cs) marker = startsWith cs marker :=
  Text.isPrefixOf_withReturns hm cs

theorem exists_of_startsWith {marker : String} (h : startsWith cs marker = true) :
    ∃ rest, cs = marker.toList ++ rest := by
  obtain ⟨rest, hrest⟩ := List.isPrefixOf_iff_prefix.mp h
  exact ⟨rest, hrest.symm⟩

theorem blockComment_withReturns {opening closing : String}
    (ho : Text.InLine opening.toList) (hc : Text.InLine closing.toList)
    (h : startsWith cs opening = true) :
    blockComment opening closing (Text.withReturns cs) =
      (blockComment opening closing cs).withReturns cs := by
  obtain ⟨body, rfl⟩ := exists_of_startsWith h
  have hlen : opening.length = opening.toList.length := String.length_toList.symm
  have hbody := Text.findFrom_withReturns hc 0 0 body
  rw [Text.withReturns_append, ho.withReturns, blockComment, blockComment, hlen, List.drop_left,
    List.drop_left, Text.find?, Text.find?]
  revert hbody
  cases hfind : Text.findFrom closing.toList 0 body with
  | none =>
      intro hbody
      rw [hbody]
      show (⟨.blockComment, _, false⟩ : Lexeme) = ⟨.blockComment, _, false⟩
      rw [List.take_length, Text.withReturns_append, ho.withReturns]
  | some n =>
      rintro ⟨-, hbody⟩
      rw [hbody]
      -- the comment is its opening marker, the characters before the closing one, and that one
      obtain ⟨rest, hrest⟩ := Text.isPrefixOf_of_findFrom hfind
      rw [Nat.sub_zero] at hrest hbody
      have hcomment : (opening.toList ++ body).take
          (opening.toList.length + n + closing.toList.length) =
          opening.toList ++ (body.take n ++ closing.toList) := by
        rw [Nat.add_assoc, List.take_length_add_append, List.take_add, hrest, List.take_left]
      show (⟨.blockComment, _, true⟩ : Lexeme) = ⟨.blockComment, _, true⟩
      rw [← String.length_toList (s := closing), hcomment, Text.withReturns_append,
        Text.withReturns_append, ho.withReturns, hc.withReturns, List.length_append,
        List.length_append, Nat.zero_add, Nat.sub_zero, Nat.add_assoc]

/-! ## Verbatim strings -/

theorem verbatimBody_cons_of_ne {delimiter c : Char} (h : c ≠ delimiter) (n : Nat)
    (cs : List Char) :
    verbatimBody delimiter n (c :: cs) = verbatimBody delimiter (n + 1) cs := by
  cases cs with
  | nil => simp [verbatimBody, h]
  | cons d cs => rw [verbatimBody, if_pos h]

/-- The body of a verbatim literal goes on over line ends of either kind. -/
theorem verbatimBody_withReturns {delimiter : Char} (hr : delimiter ≠ '\r')
    (hf : delimiter ≠ '\n') (k j : Nat) (cs : List Char) :
    verbatimBody delimiter j (Text.withReturns cs) =
      (j + (Text.withReturns (cs.take ((verbatimBody delimiter k cs).1 - k))).length,
        (verbatimBody delimiter k cs).2) := by
  -- both characters of a line end belong to the body
  have hskip : ∀ (j : Nat) (c : Char) (ds : List Char), c ≠ delimiter →
      verbatimBody delimiter j (Text.withReturns (c :: ds)) =
        verbatimBody delimiter (j + (Text.withReturns [c]).length) (Text.withReturns ds) := by
    intro j c ds hc
    by_cases hfeed : c = '\n'
    · subst hfeed
      rw [Text.withReturns_feed, verbatimBody_cons_of_ne hr.symm, verbatimBody_cons_of_ne hc]
      rfl
    · rw [Text.withReturns_cons hfeed, Text.withReturns_cons hfeed, verbatimBody_cons_of_ne hc]
      rfl
  have htake : ∀ (c : Char) (ds : List Char) (n : Nat),
      (Text.withReturns ((c :: ds).take (n + 1))).length =
        (Text.withReturns [c]).length + (Text.withReturns (ds.take n)).length := by
    intro c ds n
    rw [List.take_succ_cons, ← List.singleton_append, Text.withReturns_append, List.length_append]
  fun_induction verbatimBody delimiter k cs generalizing j with
  | case1 k => simp [verbatimBody]
  | case2 k c =>
      have hone : k + 1 - k = 1 := by omega
      by_cases hc : c = delimiter
      · subst hc
        have htext : Text.withReturns [c] = [c] := Text.withReturns_cons hf []
        rw [hone, List.take_one, List.head?_cons, Option.toList_some, htext]
        simp [verbatimBody]
      · rw [hskip j c [] hc, hone]
        simp [verbatimBody, hc]
  | case3 k c d cs hc ih =>
      have hle := le_verbatimBody delimiter (k + 1) (d :: cs)
      have hsize : (verbatimBody delimiter (k + 1) (d :: cs)).1 - k =
          (verbatimBody delimiter (k + 1) (d :: cs)).1 - (k + 1) + 1 := by omega
      rw [hskip j c (d :: cs) hc, ih, hsize, htake, Nat.add_assoc]
  | case4 k c cs hc ih =>
      obtain rfl : c = delimiter := Decidable.not_not.mp hc
      have hle := le_verbatimBody c (k + 2) cs
      have hsize : (verbatimBody c (k + 2) cs).1 - k =
          (verbatimBody c (k + 2) cs).1 - (k + 2) + 1 + 1 := by omega
      have hone : (Text.withReturns [c]).length = 1 := by
        rw [Text.withReturns_cons hf]
        rfl
      rw [Text.withReturns_cons hf, Text.withReturns_cons hf, verbatimBody, if_neg hc,
        if_pos rfl, ih, hsize, htake, htake, hone, ← Nat.add_assoc, ← Nat.add_assoc]
  | case5 k c d cs hc hd =>
      obtain rfl : c = delimiter := Decidable.not_not.mp hc
      have hone : k + 1 - k = 1 := by omega
      -- the next character is not the delimiter, nor is the carriage return before a line feed
      obtain ⟨e, es, hes, he⟩ : ∃ e es, Text.withReturns (d :: cs) = e :: es ∧ e ≠ c := by
        by_cases hfeed : d = '\n'
        · subst hfeed
          exact ⟨_, _, Text.withReturns_feed cs, hr.symm⟩
        · exact ⟨_, _, Text.withReturns_cons hfeed cs, hd⟩
      rw [Text.withReturns_cons hf, hes, verbatimBody, if_neg hc, if_neg he, hone]
      show (j + 1, true) = (j + (Text.withReturns [c]).length, true)
      rw [Text.withReturns_cons hf]
      rfl

theorem opensVerbatim_withReturns (hg : g.MarkersInLine) (hd : g.DelimitersInLine)
    {marker : String}
    (hm : marker ∈ g.verbatimPrefixes) (cs : List Char) :
    g.opensVerbatim (Text.withReturns cs) marker = g.opensVerbatim cs marker := by
  have hline := hg.verbatim marker hm
  obtain ⟨hreturn, hfeed⟩ := hd (List.ne_nil_of_mem hm)
  rw [Grammar.opensVerbatim, Grammar.opensVerbatim, Text.isPrefixOf_withReturns hline]
  cases hp : marker.toList.isPrefixOf cs with
  | false => rfl
  | true =>
      obtain ⟨rest, hrest⟩ := List.isPrefixOf_iff_prefix.mp hp
      subst hrest
      rw [Text.withReturns_append, hline.withReturns, ← String.length_toList, List.drop_left,
        List.drop_left]
      -- the character behind the marker is the same, or a line end, and then no delimiter
      cases rest with
      | nil => rfl
      | cons c rest =>
          by_cases hc : c = '\n'
          · subst hc
            simp [hreturn, hfeed]
          · rw [Text.withReturns_cons hc]
            rfl

theorem verbatimPrefix?_withReturns (hg : g.MarkersInLine) (hd : g.DelimitersInLine)
    (cs : List Char) :
    g.verbatimPrefix? (Text.withReturns cs) = g.verbatimPrefix? cs :=
  List.find?_congr fun _ hm => opensVerbatim_withReturns hg hd hm cs

theorem verbatim_withReturns (hg : g.MarkersInLine) (hd : g.DelimitersInLine)
    {marker : String}
    (hm : g.verbatimPrefix? cs = some marker) :
    verbatim marker.length (Text.withReturns cs) =
      (verbatim marker.length cs).withReturns cs := by
  have hmem : marker ∈ g.verbatimPrefixes := List.mem_of_find?_eq_some hm
  have hopens : g.opensVerbatim cs marker = true := List.find?_some hm
  have hline := hg.verbatim marker hmem
  obtain ⟨hreturn, hfeed⟩ := hd (List.ne_nil_of_mem hmem)
  rw [Grammar.opensVerbatim, Bool.and_eq_true] at hopens
  obtain ⟨rest, hrest⟩ := List.isPrefixOf_iff_prefix.mp hopens.1
  subst hrest
  rw [← String.length_toList, List.drop_left] at hopens
  cases rest with
  | nil => cases hopens.2
  | cons delimiter body =>
      have hdelimiter : g.isStringDelimiter delimiter = true := hopens.2
      have hr : delimiter ≠ '\r' := by
        rintro rfl
        rw [hreturn] at hdelimiter
        cases hdelimiter
      have hf : delimiter ≠ '\n' := by
        rintro rfl
        rw [hfeed] at hdelimiter
        cases hdelimiter
      have hle := le_verbatimBody delimiter (marker.toList.length + 1) body
      have hbody := verbatimBody_withReturns hr hf (marker.toList.length + 1)
        (marker.toList.length + 1) body
      rw [Text.withReturns_append, hline.withReturns, Text.withReturns_cons hf, verbatim, verbatim,
        ← String.length_toList, List.drop_left, List.drop_left]
      show (⟨.stringLiteral, (verbatimBody delimiter _ (Text.withReturns body)).1, _⟩ : Lexeme) =
        ⟨.stringLiteral, (Text.withReturns (List.take (verbatimBody delimiter _ body).1 _)).length,
          _⟩
      -- the literal is its marker, the delimiter and the body
      have hsize : (verbatimBody delimiter (marker.toList.length + 1) body).1 =
          marker.toList.length +
            ((verbatimBody delimiter (marker.toList.length + 1) body).1 -
              (marker.toList.length + 1) + 1) := by omega
      conv_rhs => rw [hsize, List.take_length_add_append, List.take_succ_cons]
      rw [hbody, Text.withReturns_append, hline.withReturns, Text.withReturns_cons hf,
        List.length_append, List.length_cons, Nat.add_assoc, Nat.add_comm 1]

/-! ## Quoted literals -/

/-- The body of a quoted literal without line feeds ends as before; if it ends at the end of its
line, it takes the carriage return along. -/
theorem quotedBody_withReturns {delimiter : Char} (hd : delimiter ≠ '\r') (k : Nat)
    (cs : List Char) (hf : '\n' ∉ cs.take ((quotedBody delimiter k cs).1 - k)) :
    quotedBody delimiter k (Text.withReturns cs) =
      if (quotedBody delimiter k cs).2 = .line then ((quotedBody delimiter k cs).1 + 1, .line)
      else quotedBody delimiter k cs := by
  fun_induction quotedBody delimiter k cs with
  | case1 n => rfl
  | case2 n => rfl
  | case3 n d cs ih =>
      have hle := le_quotedBody delimiter (n + 2) cs
      have hsize : (quotedBody delimiter (n + 2) cs).1 - n =
          (quotedBody delimiter (n + 2) cs).1 - (n + 2) + 1 + 1 := by omega
      rw [hsize, List.take_succ_cons, List.take_succ_cons, List.mem_cons, List.mem_cons, not_or,
        not_or] at hf
      rw [Text.withReturns_cons (by decide), Text.withReturns_cons (Ne.symm hf.2.1), quotedBody]
      exact ih hf.2.2
  | case4 n cs hnil hcons =>
      rw [Text.withReturns_feed, quotedBody_cons _ _ _ (by decide), if_neg (by decide),
        if_neg hd.symm, quotedBody_cons _ _ _ (by decide), if_pos rfl, if_pos rfl]
  | case5 n cs hnil hcons hline =>
      rw [Text.withReturns_cons hline, quotedBody_cons _ _ _ (ne_backslash hnil hcons),
        if_neg hline, if_pos rfl, if_neg BodyEnd.noConfusion]
  | case6 n c cs hnil hcons hline hdelimiter ih =>
      have hle := le_quotedBody delimiter (n + 1) cs
      have hsize : (quotedBody delimiter (n + 1) cs).1 - n =
          (quotedBody delimiter (n + 1) cs).1 - (n + 1) + 1 := by omega
      rw [hsize, List.take_succ_cons, List.mem_cons, not_or] at hf
      rw [Text.withReturns_cons hline, quotedBody_cons _ _ _ (ne_backslash hnil hcons),
        if_neg hline, if_neg hdelimiter]
      exact ih hf.2

/-- A body that ends at the end of its line stands before a line feed. -/
theorem exists_feed_of_quotedBody {delimiter : Char} {k n : Nat} {cs : List Char}
    (h : quotedBody delimiter k cs = (n, .line)) :
    ∃ rest, cs.drop (n - k) = '\n' :: rest := by
  fun_induction quotedBody delimiter k cs with
  | case1 n => cases h
  | case2 n => cases h
  | case3 k d cs ih =>
      have hle := le_quotedBody delimiter (k + 2) cs
      rw [h] at hle
      have hsize : n - k = n - (k + 2) + 1 + 1 := by simp only at hle; omega
      obtain ⟨rest, hrest⟩ := ih h
      exact ⟨rest, by rw [hsize, List.drop_succ_cons, List.drop_succ_cons, hrest]⟩
  | case4 k cs hnil hcons =>
      cases h
      exact ⟨cs, by rw [Nat.sub_self, List.drop_zero]⟩
  | case5 k cs hnil hcons hline => cases h
  | case6 k c cs hnil hcons hline hdelimiter ih =>
      have hle := le_quotedBody delimiter (k + 1) cs
      rw [h] at hle
      have hsize : n - k = n - (k + 1) + 1 := by simp only at hle; omega
      obtain ⟨rest, hrest⟩ := ih h
      exact ⟨rest, by rw [hsize, List.drop_succ_cons, hrest]⟩

/-- The carriage return at the end of a line is left to the line end. -/
theorem sizeBeforeReturn_line {line : List Char} (h : '\n' ∉ line) (rest : List Char) :
    sizeBeforeReturn (line.length + 1) (Text.withReturns (line ++ '\n' :: rest)) =
      line.length := by
  have hlength : line.length + 1 = (line ++ ['\r']).length := by simp
  rw [sizeBeforeReturn, Text.withReturns_line h, hlength, List.take_left, List.getLast?_concat,
    if_pos rfl, ← hlength, Nat.add_sub_cancel]

/-- Without carriage returns a quoted literal ends where its body does. -/
theorem size_quoted {delimiter : Char} {rest : List Char} (h : '\r' ∉ delimiter :: rest)
    (kind : TokenKind) :
    (quoted kind delimiter (delimiter :: rest)).size = (quotedBody delimiter 1 rest).1 := by
  rw [quoted, List.drop_succ_cons, List.drop_zero]
  split
  · next hbody => rw [hbody]
  · next hbody => rw [hbody]; exact sizeBeforeReturn_of_not_mem h _
  · next hbody => rw [hbody]

theorem quoted_withReturns {kind : TokenKind} {delimiter : Char} {rest : List Char}
    (hd : delimiter ≠ '\r') (hn : delimiter ≠ '\n') (hr : '\r' ∉ rest)
    (hf : '\n' ∉ (delimiter :: rest).take (quoted kind delimiter (delimiter :: rest)).size) :
    quoted kind delimiter (Text.withReturns (delimiter :: rest)) =
      (quoted kind delimiter (delimiter :: rest)).withReturns (delimiter :: rest) := by
  have hcs : '\r' ∉ delimiter :: rest := by
    rw [List.mem_cons, not_or]
    exact ⟨hd.symm, hr⟩
  rw [size_quoted hcs kind] at hf
  rw [withReturns, size_quoted hcs kind]
  -- the literal is the delimiter and `m` characters without a line feed
  have hpos := le_quotedBody delimiter 1 rest
  have hle := (quotedBody_append delimiter 1 rest []).1
  obtain ⟨m, hm⟩ : ∃ m, (quotedBody delimiter 1 rest).1 = m + 1 :=
    ⟨(quotedBody delimiter 1 rest).1 - 1, by omega⟩
  rw [hm] at hf hle
  have hlength : (delimiter :: rest.take m).length = m + 1 := by
    rw [List.length_cons, List.length_take_of_le (by omega)]
  rw [List.take_succ_cons] at hf
  have hfeed : '\n' ∉ rest.take m := fun hmem => hf (List.mem_cons_of_mem _ hmem)
  have hbody := quotedBody_withReturns hd 1 rest (by rw [hm]; exact hfeed)
  rw [hm, List.take_succ_cons, Text.withReturns_eq_self hf, hlength, Text.withReturns_cons hn,
    quoted, quoted, List.drop_succ_cons, List.drop_zero, List.drop_succ_cons, List.drop_zero, hbody]
  rcases hq : quotedBody delimiter 1 rest with ⟨n, bodyEnd⟩
  rw [hq] at hm
  obtain rfl : n = m + 1 := hm
  cases bodyEnd with
  | delimiter => rfl
  | input => rfl
  | line =>
      -- the body takes the carriage return along, and the literal leaves it to the line end
      obtain ⟨after, hafter⟩ := exists_feed_of_quotedBody hq
      rw [Nat.add_sub_cancel] at hafter
      have hsplit : delimiter :: Text.withReturns rest =
          Text.withReturns ((delimiter :: rest.take m) ++ '\n' :: after) := by
        rw [← hafter, List.cons_append, List.take_append_drop, Text.withReturns_cons hn]
      have hsize := sizeBeforeReturn_line hf after
      rw [← hsplit, hlength] at hsize
      simp only [if_pos]
      show (⟨kind, sizeBeforeReturn (m + 1 + 1) _, false⟩ : Lexeme) = ⟨kind, m + 1, _⟩
      rw [hsize]

/-! ## The head of a text -/

theorem any_lineComment_withReturns (hg : g.MarkersInLine) (cs : List Char) :
    g.lineComment.any (startsWith (Text.withReturns cs)) = g.lineComment.any (startsWith cs) := by
  cases hm : g.lineComment with
  | none => rfl
  | some marker => exact startsWith_withReturns (hg.line marker hm) cs

theorem filter_blockComment_withReturns (hg : g.MarkersInLine) (cs : List Char) :
    g.blockComment.filter (startsWith (Text.withReturns cs) ·.1) =
      g.blockComment.filter (startsWith cs ·.1) := by
  cases hm : g.blockComment with
  | none => rfl
  | some markers =>
      simp only [Option.filter, startsWith_withReturns (hg.block markers.1 markers.2 hm).1 cs]

/-- A literal that is not verbatim has no line feed in it. -/
def KeepsToLine (g : Grammar) (cs : List Char) : Prop :=
  (atHead g cs).kind = .stringLiteral ∨ (atHead g cs).kind = .charLiteral →
    g.verbatimPrefix? cs = none → '\n' ∉ cs.take (atHead g cs).size

/-- **Line ends of either kind read alike**: with carriage returns in the text, the lexeme at its
head is the same, and the carriage returns in it are all that it has more. -/
theorem atHead_withReturns (hg : g.MarkersInLine) (hd : g.DelimitersInLine) (hr : '\r' ∉ cs)
    (hf : KeepsToLine g cs) :
    atHead g (Text.withReturns cs) = (atHead g cs).withReturns cs := by
  cases cs with
  | nil => rfl
  | cons c rest =>
      by_cases hfeed : c = '\n'
      · subst hfeed
        rw [Text.withReturns_feed, atHead, atHead, if_pos rfl]
        rfl
      · rw [List.mem_cons, not_or] at hr
        have hreturn : c ≠ '\r' := Ne.symm hr.1
        have hcs : '\r' ∉ c :: rest := by
          rw [List.mem_cons, not_or]
          exact hr
        have hcons : Text.withReturns (c :: rest) = c :: Text.withReturns rest :=
          Text.withReturns_cons hfeed rest
        have hline := any_lineComment_withReturns hg (c :: rest)
        have hblock := filter_blockComment_withReturns hg (c :: rest)
        have hverbatim := verbatimPrefix?_withReturns hg hd (c :: rest)
        have hone : (Text.withReturns ((c :: rest).take 1)).length = 1 := by
          rw [List.take_succ_cons, List.take_zero, Text.withReturns_cons hfeed]
          rfl
        have hend : ∀ ds : List Char, ¬(c = '\r' ∧ ds.head? = some '\n') := fun _ h => hreturn h.1
        unfold KeepsToLine at hf
        rw [hcons] at hline hblock hverbatim ⊢
        simp only [atHead, if_neg hfeed, if_neg (hend _), hline, hblock, hverbatim] at hf ⊢
        split
        · rw [← hcons]
          exact lineComment_withReturns hcs
        · next hl =>
          rw [if_neg hl] at hf
          cases hb : g.blockComment.filter (startsWith (c :: rest) ·.1) with
          | some markers =>
              obtain ⟨hmarkers, hstarts⟩ := Option.filter_eq_some_iff.mp hb
              obtain ⟨ho, hc⟩ := hg.block markers.1 markers.2 hmarkers
              simp only
              rw [← hcons]
              exact blockComment_withReturns ho hc hstarts
          | none =>
              simp only [hb] at hf ⊢
              split
              · rw [← hcons]
                exact blank_withReturns hcs
              · next hblank =>
                rw [if_neg hblank] at hf
                cases hv : g.verbatimPrefix? (c :: rest) with
                | some marker =>
                    simp only
                    rw [← hcons]
                    exact verbatim_withReturns hg hd hv
                | none =>
                    simp only [hv] at hf ⊢
                    split
                    · next hs =>
                      rw [if_pos hs] at hf
                      rw [← hcons]
                      exact quoted_withReturns hreturn hfeed hr.2 (hf (.inl (by simp)) trivial)
                    · next hs =>
                      rw [if_neg hs] at hf
                      split
                      · next hchar =>
                        rw [if_pos hchar] at hf
                        rw [← hcons]
                        exact quoted_withReturns hreturn hfeed hr.2 (hf (.inr (by simp)) trivial)
                      · split
                        · rw [← hcons]
                          exact word_withReturns g (c :: rest)
                        · split
                          · rw [← hcons]
                            exact number_withReturns (c :: rest)
                          · rw [withReturns, hone]

end Lexeme

end DeclTags
