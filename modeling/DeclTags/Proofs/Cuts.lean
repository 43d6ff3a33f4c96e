import DeclTags.Proofs.Feed
import DeclTags.Proofs.Streams
import Mathlib.Data.List.Find

set_option autoImplicit false

/-! # Lexemes of a cut text

Of a text `cs ++ q` that is cut behind `cs`, the first lexeme is found in `cs` already, or the cut
falls into it. In the second case what is found instead, and all that is left of `cs` behind it, is
free of braces and semicolons: a literal or comment that the cut opens takes all of `cs`, and
a marker that is cut has none of these characters in it if the whole marker has none
(`Lexeme.atHead_append`).
-/

namespace DeclTags

/-- Without a brace or semicolon. -/
def Inert (cs : List Char) : Prop := ∀ c ∈ cs, c ≠ '{' ∧ c ≠ '}' ∧ c ≠ ';'

namespace Inert

theorem nil : Inert [] := by simp [Inert]

theorem singleton_return : Inert ['\r'] := by
  intro c hc
  rw [List.mem_singleton.mp hc]
  decide

theorem subset {cs ds : List Char} (h : Inert cs) (hs : ds ⊆ cs) : Inert ds :=
  fun c hc => h c (hs hc)

theorem drop {cs : List Char} (h : Inert cs) (n : Nat) : Inert (cs.drop n) :=
  h.subset (List.drop_sublist n cs).subset

theorem drop_of_le {cs : List Char} {n : Nat} (h : cs.length ≤ n) : Inert (cs.drop n) := by
  rw [List.drop_eq_nil_of_le h]
  exact nil

end Inert

/-- No brace or semicolon stands in a marker with which a comment or a verbatim string begins. -/
structure Grammar.MarkersInert (g : Grammar) : Prop where
  line : ∀ marker, g.lineComment = some marker → Inert marker.toList
  block : ∀ opening closing, g.blockComment = some (opening, closing) → Inert opening.toList
  verbatim : ∀ marker ∈ g.verbatimPrefixes, Inert marker.toList

/-! ## Texts with something behind them -/

namespace Text

/-- What is found in a text is found there with something behind it, too. -/
theorem findFrom_append {needle cs : List Char} (q : List Char) {i n : Nat}
    (h : findFrom needle i cs = some n) :
    i ≤ n ∧ n + needle.length ≤ i + cs.length ∧ findFrom needle i (cs ++ q) = some n := by
  induction cs generalizing i with
  | nil =>
      rw [findFrom] at h
      split at h
      · next hnil =>
        cases h
        rw [List.isEmpty_iff.mp hnil]
        refine ⟨Nat.le_refl _, Nat.le_refl _, ?_⟩
        cases q <;> rfl
      · cases h
  | cons c cs ih =>
      rw [findFrom] at h
      rw [List.cons_append, findFrom, List.length_cons]
      split at h
      · next hp =>
        cases h
        have hp := List.isPrefixOf_iff_prefix.mp hp
        have hlen := hp.length_le
        rw [List.length_cons] at hlen
        have hq : needle <+: c :: (cs ++ q) := hp.trans (List.prefix_append (c :: cs) q)
        rw [if_pos (List.isPrefixOf_iff_prefix.mpr hq)]
        exact ⟨Nat.le_refl _, by omega, rfl⟩
      · next hp =>
        obtain ⟨hle, hlen, hfind⟩ := ih h
        -- the needle is not longer than what is left, so it is not cut
        have hq : ¬needle.isPrefixOf (c :: (cs ++ q)) = true := fun hq =>
          hp (List.isPrefixOf_iff_prefix.mpr (List.prefix_of_prefix_length_le
            (List.isPrefixOf_iff_prefix.mp hq) (List.prefix_append (c :: cs) q)
            (by rw [List.length_cons]; omega)))
        rw [if_neg hq]
        exact ⟨by omega, by omega, hfind⟩

end Text

theorem takeWhile_append_cases (p : Char → Bool) (cs q : List Char) :
    ((cs ++ q).takeWhile p = cs.takeWhile p ∧ (cs.takeWhile p).length < cs.length) ∨
      cs.takeWhile p = cs := by
  rw [List.takeWhile_append]
  have hp := List.takeWhile_prefix (l := cs) p
  split
  · next h => exact Or.inr (hp.eq_of_length h)
  · next h => exact Or.inl ⟨rfl, Nat.lt_of_le_of_ne hp.length_le h⟩

namespace Lexeme

/-- The lexeme `x` is found at the head of `cs` whether or not `q` stands behind it, or nothing
behind it in `cs` carries structure. -/
def Stable (read : List Char → Lexeme) (cs q : List Char) : Prop :=
  (read (cs ++ q) = read cs ∧ (read cs).size ≤ cs.length) ∨ Inert (cs.drop (read cs).size)

theorem stable_of_le {read : List Char → Lexeme} {cs q : List Char}
    (h : cs.length ≤ (read cs).size) : Stable read cs q := Or.inr (Inert.drop_of_le h)

/-! ## The readers -/

theorem sizeBeforeReturn_append {n : Nat} {cs : List Char} (q : List Char) (h : n ≤ cs.length) :
    sizeBeforeReturn n (cs ++ q) = sizeBeforeReturn n cs := by
  rw [sizeBeforeReturn, List.take_append_of_le_length h, sizeBeforeReturn]

theorem sizeBeforeReturn_le (n : Nat) (cs : List Char) : sizeBeforeReturn n cs ≤ n := by
  rcases sizeBeforeReturn_cases n cs with h | ⟨h, -⟩
  · exact Nat.le_of_eq h
  · exact h ▸ Nat.sub_le n 1

/-- Behind the whole text, perhaps without a carriage return at its end, nothing carries
structure. -/
theorem inert_drop_sizeBeforeReturn (cs : List Char) :
    Inert (cs.drop (sizeBeforeReturn cs.length cs)) := by
  rcases sizeBeforeReturn_cases cs.length cs with h | ⟨h, hlast⟩
  · exact Inert.drop_of_le (Nat.le_of_eq h.symm)
  · rw [List.take_length] at hlast
    obtain ⟨init, rfl⟩ := List.getLast?_eq_some_iff.mp hlast
    rw [h, List.length_append, List.length_singleton, Nat.add_sub_cancel, List.drop_left]
    exact Inert.singleton_return

theorem lineComment_stable (cs q : List Char) : Stable lineComment cs q := by
  rcases takeWhile_append_cases (· ≠ '\n') cs q with ⟨heq, hlt⟩ | hall
  · left
    rw [lineComment, lineComment, heq, sizeBeforeReturn_append q (Nat.le_of_lt hlt)]
    exact ⟨rfl, Nat.le_trans (sizeBeforeReturn_le _ _) (Nat.le_of_lt hlt)⟩
  · right
    rw [lineComment, hall]
    exact inert_drop_sizeBeforeReturn cs

theorem blockComment_stable {opening : String} (closing : String) {cs : List Char}
    (q : List Char) (h : opening.toList <+: cs) : Stable (blockComment opening closing) cs q := by
  have hlen : opening.length ≤ cs.length := by
    rw [← String.length_toList]
    exact h.length_le
  unfold Stable blockComment
  cases hf : Text.find? closing.toList (cs.drop opening.length) with
  | none => exact Or.inr (Inert.drop_of_le (Nat.le_refl _))
  | some n =>
      obtain ⟨-, hn, hq⟩ := Text.findFrom_append q hf
      rw [List.length_drop, Nat.zero_add, String.length_toList] at hn
      rw [List.drop_append_of_le_length hlen, Text.find?, hq]
      refine Or.inl ⟨rfl, ?_⟩
      show opening.length + n + closing.length ≤ cs.length
      omega

/-- A character that begins no escape, whatever stands behind it, is no backslash. -/
theorem ne_backslash {c : Char} {cs : List Char} (hnil : c = '\\' → cs = [] → False)
    (hcons : ∀ d ds, c = '\\' → cs = d :: ds → False) : c ≠ '\\' := by
  intro h
  cases cs with
  | nil => exact hnil h rfl
  | cons d ds => exact hcons d ds h rfl

theorem quotedBody_cons (delimiter : Char) (n : Nat) {c : Char} (cs : List Char) (hc : c ≠ '\\') :
    quotedBody delimiter n (c :: cs) =
      if c = '\n' then (n, .line)
      else if c = delimiter then (n + 1, .delimiter)
      else quotedBody delimiter (n + 1) cs := by
  rw [quotedBody]
  · exact fun h => absurd h hc
  · exact fun _ _ h => absurd h hc

/-- The body of a quoted literal ends before the cut, or takes everything up to it. -/
theorem quotedBody_append (delimiter : Char) (n : Nat) (cs q : List Char) :
    (quotedBody delimiter n cs).1 ≤ n + cs.length ∧
      (quotedBody delimiter n (cs ++ q) = quotedBody delimiter n cs ∨
        (quotedBody delimiter n cs).1 = n + cs.length) := by
  -- only the first two cases, the end and a backslash at it, come to the cut
  fun_induction quotedBody delimiter n cs with
  | case1 n => exact ⟨Nat.le_refl _, Or.inr rfl⟩
  | case2 n => exact ⟨Nat.le_refl _, Or.inr rfl⟩
  | case3 n _ cs ih =>
      simp only [List.cons_append, List.length_cons, quotedBody]
      refine ⟨by omega, ih.2.imp_right fun h => by omega⟩
  | case4 n cs _ _ =>
      rw [List.cons_append, quotedBody_cons _ _ _ (by decide), if_pos rfl]
      exact ⟨Nat.le_add_right _ _, Or.inl rfl⟩
  | case5 n cs hnil hcons hline =>
      rw [List.cons_append, quotedBody_cons _ _ _ (ne_backslash hnil hcons), if_neg hline,
        if_pos rfl, List.length_cons]
      exact ⟨Nat.add_le_add_left (Nat.le_add_left 1 _) n, Or.inl rfl⟩
  | case6 n c cs hnil hcons hline hdelimiter ih =>
      rw [List.cons_append, quotedBody_cons _ _ _ (ne_backslash hnil hcons), if_neg hline,
        if_neg hdelimiter, List.length_cons, Nat.add_comm cs.length 1, ← Nat.add_assoc]
      exact ih

theorem quoted_stable (kind : TokenKind) (delimiter : Char) {cs : List Char} (q : List Char)
    (hne : cs ≠ []) : Stable (quoted kind delimiter) cs q := by
  obtain ⟨c, cs, rfl⟩ := List.exists_cons_of_ne_nil hne
  obtain ⟨hle, hcases⟩ := quotedBody_append delimiter 1 cs q
  have hlen : 1 + cs.length = (c :: cs).length := by rw [List.length_cons, Nat.add_comm]
  rw [hlen] at hle hcases
  unfold Stable quoted
  simp only [List.cons_append, List.drop_succ_cons, List.drop_zero]
  rcases hcases with heq | hall
  · left
    rw [heq]
    split
    · next n hn => exact ⟨rfl, by rwa [hn] at hle⟩
    · next n hn =>
      rw [hn] at hle
      rw [← List.cons_append, sizeBeforeReturn_append q hle]
      exact ⟨rfl, Nat.le_trans (sizeBeforeReturn_le _ _) hle⟩
    · next n hn => exact ⟨rfl, by rwa [hn] at hle⟩
  · right
    split
    · next n hn => exact Inert.drop_of_le (by rw [← hall, hn])
    · next n hn =>
      obtain rfl : n = (c :: cs).length := by rw [← hall, hn]
      exact inert_drop_sizeBeforeReturn _
    · next n hn => exact Inert.drop_of_le (by rw [← hall, hn])

theorem add_length_cons (n : Nat) (c : Char) (cs : List Char) :
    n + (c :: cs).length = n + 1 + cs.length := by
  rw [List.length_cons, Nat.add_comm cs.length 1, Nat.add_assoc]

/-- The body of a verbatim literal ends before the cut, or takes everything up to it. -/
theorem verbatimBody_append (delimiter : Char) (n : Nat) (cs q : List Char) :
    (verbatimBody delimiter n cs).1 ≤ n + cs.length ∧
      (verbatimBody delimiter n (cs ++ q) = verbatimBody delimiter n cs ∨
        (verbatimBody delimiter n cs).1 = n + cs.length) := by
  fun_induction verbatimBody delimiter n cs with
  | case1 n => exact ⟨Nat.le_refl _, Or.inr rfl⟩
  | case2 n =>
      -- a delimiter at the cut: it ends the literal here, but may be doubled in the whole text
      exact ⟨Nat.le_refl _, Or.inr rfl⟩
  | case3 n c d cs hne ih =>
      rw [add_length_cons, List.cons_append, List.cons_append, verbatimBody, if_pos hne]
      exact ih
  | case4 n c cs hc ih =>
      rw [add_length_cons, add_length_cons, List.cons_append, List.cons_append, verbatimBody,
        if_neg hc, if_pos rfl]
      exact ih
  | case5 n c d cs hc hd =>
      rw [add_length_cons, List.cons_append, List.cons_append, verbatimBody, if_neg hc, if_neg hd]
      exact ⟨Nat.le_add_right _ _, Or.inl rfl⟩

theorem verbatim_stable {n : Nat} {cs : List Char} (q : List Char) (h : n < cs.length) :
    Stable (verbatim n) cs q := by
  have hdrop : (cs ++ q).drop n = cs.drop n ++ q :=
    List.drop_append_of_le_length (Nat.le_of_lt h)
  have hlen : (cs.drop n).length = cs.length - n := List.length_drop
  unfold Stable verbatim
  rw [hdrop]
  cases hb : cs.drop n with
  | nil =>
      rw [hb, List.length_nil] at hlen
      omega
  | cons delimiter body =>
      rw [hb, List.length_cons] at hlen
      obtain ⟨hle, hcases⟩ := verbatimBody_append delimiter (n + 1) body q
      have htotal : n + 1 + body.length = cs.length := by omega
      rw [htotal] at hle hcases
      rcases hcases with heq | hall
      · left
        simp only [List.cons_append, heq, true_and]
        exact hle
      · exact Or.inr (Inert.drop_of_le (Nat.le_of_eq hall.symm))

/-- A run of characters ends before the cut, or takes everything up to it. -/
theorem takeWhile_stable (p : Char → Bool) (cs q : List Char) :
    ((cs ++ q).takeWhile p = cs.takeWhile p ∧ (cs.takeWhile p).length ≤ cs.length) ∨
      Inert (cs.drop (cs.takeWhile p).length) := by
  rcases takeWhile_append_cases p cs q with ⟨heq, hlt⟩ | hall
  · exact Or.inl ⟨heq, Nat.le_of_lt hlt⟩
  · exact Or.inr (Inert.drop_of_le (by rw [hall]))

theorem word_stable (g : Grammar) (cs q : List Char) : Stable (word g) cs q := by
  rcases takeWhile_stable isWordChar cs q with ⟨heq, hle⟩ | hall
  · exact Or.inl ⟨by rw [word, heq, word], hle⟩
  · exact Or.inr hall

theorem number_stable (cs q : List Char) : Stable number cs q := by
  rcases takeWhile_stable isNumberChar cs q with ⟨heq, hle⟩ | hall
  · exact Or.inl ⟨by rw [number, heq, number], hle⟩
  · exact Or.inr hall

theorem head?_drop_append {n : Nat} {cs : List Char} (q : List Char) (h : n < cs.length) :
    ((cs ++ q).drop n).head? = (cs.drop n).head? := by
  rw [List.head?_drop, List.head?_drop, List.getElem?_append_left h]

theorem blank_stable (cs q : List Char) : Stable blank cs q := by
  rcases takeWhile_append_cases (fun c => Text.isBlank c && c ≠ '\n') cs q with
    ⟨heq, hlt⟩ | hall
  · left
    simp only [blank, heq, head?_drop_append q hlt, sizeBeforeReturn_append q (Nat.le_of_lt hlt),
      true_and]
    split
    · exact Nat.le_trans (sizeBeforeReturn_le _ _) (Nat.le_of_lt hlt)
    · exact Nat.le_of_lt hlt
  · -- everything up to the cut is white space
    have hend : ¬(cs.drop cs.length).head? = some '\n' := by simp
    refine stable_of_le ?_
    simp only [blank, hall, if_neg hend]
    exact Nat.le_refl _

/-! ## What stands at the head of a cut text -/

/-- A marker without structure stands at the head of the whole text only if it stands at the head
of what is before the cut, or if that has no structure either. -/
theorem startsWith_append {cs : List Char} (q : List Char) {marker : String}
    (hm : Inert marker.toList) (hcs : ¬Inert cs) :
    startsWith (cs ++ q) marker = startsWith cs marker := by
  rw [startsWith, startsWith, Bool.eq_iff_iff, List.isPrefixOf_iff_prefix,
    List.isPrefixOf_iff_prefix]
  constructor
  · intro h
    rcases List.prefix_or_prefix_of_prefix h (List.prefix_append cs q) with hp | hp
    · exact hp
    · -- the cut falls into the marker
      exact absurd (hm.subset hp.subset) hcs
  · exact fun h => h.trans (List.prefix_append cs q)

theorem opensVerbatim_append {g : Grammar} {cs : List Char} (q : List Char) {marker : String}
    (hm : Inert marker.toList) (hcs : ¬Inert cs) :
    g.opensVerbatim (cs ++ q) marker = g.opensVerbatim cs marker := by
  have hs : marker.toList.isPrefixOf (cs ++ q) = marker.toList.isPrefixOf cs :=
    startsWith_append q hm hcs
  rw [Grammar.opensVerbatim, Grammar.opensVerbatim, hs]
  cases hp : marker.toList.isPrefixOf cs with
  | false => rfl
  | true =>
      have hinitial := List.isPrefixOf_iff_prefix.mp hp
      have hlt : marker.length < cs.length := by
        rw [← String.length_toList]
        refine Nat.lt_of_le_of_ne hinitial.length_le fun hlen => ?_
        exact hcs (hinitial.eq_of_length hlen ▸ hm)
      rw [head?_drop_append q hlt]

/-- The delimiter of a verbatim string stands behind its marker. -/
theorem length_lt_of_opensVerbatim {g : Grammar} {cs : List Char} {marker : String}
    (h : g.opensVerbatim cs marker = true) : marker.length < cs.length := by
  obtain ⟨-, hhead⟩ := (Bool.and_eq_true _ _).mp h
  refine Nat.lt_of_not_le fun hle => ?_
  rw [List.drop_eq_nil_of_le hle] at hhead
  cases hhead

theorem verbatimPrefix?_append {g : Grammar} (hg : g.MarkersInert) {cs : List Char}
    (q : List Char) (hcs : ¬Inert cs) : g.verbatimPrefix? (cs ++ q) = g.verbatimPrefix? cs :=
  List.find?_congr fun _ hm => opensVerbatim_append q (hg.verbatim _ hm) hcs

theorem lineComment_append {g : Grammar} (hg : g.MarkersInert) {cs : List Char} (q : List Char)
    (hcs : ¬Inert cs) :
    g.lineComment.any (startsWith (cs ++ q)) = g.lineComment.any (startsWith cs) := by
  cases hm : g.lineComment with
  | none => rfl
  | some marker => exact startsWith_append q (hg.line marker hm) hcs

theorem blockComment_append {g : Grammar} (hg : g.MarkersInert) {cs : List Char} (q : List Char)
    (hcs : ¬Inert cs) :
    g.blockComment.filter (startsWith (cs ++ q) ·.1) =
      g.blockComment.filter (startsWith cs ·.1) := by
  cases hm : g.blockComment with
  | none => rfl
  | some markers =>
      simp only [Option.filter, startsWith_append q (hg.block markers.1 markers.2 hm) hcs]

/-- A line end of two characters is not cut in a text with structure. -/
theorem lineEnd_append {c : Char} {rest : List Char} (q : List Char) (hcs : ¬Inert (c :: rest)) :
    (c = '\r' ∧ (rest ++ q).head? = some '\n') = (c = '\r' ∧ rest.head? = some '\n') := by
  cases rest with
  | nil =>
      have hc : c ≠ '\r' := fun h => hcs (h ▸ Inert.singleton_return)
      simp [hc]
  | cons d rest => rfl

/-- The lexeme carries no structure, and nothing behind it in the text does. -/
def Blunt (cs : List Char) (x : Lexeme) : Prop :=
  (∀ c, x.kind = .punctuation c → Inert [c]) ∧ Inert (cs.drop x.size)

/-- The lexeme at the head of a text without structure is blunt. -/
theorem blunt_of_inert {g : Grammar} {c : Char} {rest : List Char} (h : Inert (c :: rest)) :
    Blunt (c :: rest) (atHead g (c :: rest)) := by
  refine ⟨fun d hd => ?_, h.drop _⟩
  rw [atHead_punctuation hd]
  exact h.subset (List.singleton_sublist.mpr List.mem_cons_self).subset

theorem Stable.found_or_blunt {read : List Char → Lexeme} {cs q : List Char}
    (h : Stable read cs q) (hk : ∀ c, (read cs).kind ≠ .punctuation c) :
    (read (cs ++ q) = read cs ∧ (read cs).size ≤ cs.length) ∨ Blunt cs (read cs) :=
  h.imp_right fun hi => ⟨fun c hc => absurd hc (hk c), hi⟩

/-- **The first lexeme of a cut text** is that of the whole text, or neither it nor anything behind
it in the cut text carries structure. -/
theorem atHead_append {g : Grammar} (hg : g.MarkersInert) {cs : List Char} (q : List Char)
    (hne : cs ≠ []) :
    (atHead g (cs ++ q) = atHead g cs ∧ (atHead g cs).size ≤ cs.length) ∨
      Blunt cs (atHead g cs) := by
  obtain ⟨c, rest, rfl⟩ := List.exists_cons_of_ne_nil hne
  by_cases hcs : Inert (c :: rest)
  · exact Or.inr (blunt_of_inert hcs)
  · -- what decides the form of the lexeme is the same in both texts, and each form is stable
    have hline := lineComment_append hg q hcs
    have hblock := blockComment_append hg q hcs
    have hverbatim := verbatimPrefix?_append hg q hcs
    simp only [List.cons_append] at hline hblock hverbatim
    simp only [List.cons_append, atHead, lineEnd_append q hcs, hline, hblock, hverbatim]
    split
    · exact Or.inl ⟨rfl, Nat.le_add_left 1 _⟩
    · split
      · next hend =>
        obtain ⟨rest, rfl⟩ := List.head?_eq_some_iff.mp hend.2
        exact Or.inl ⟨rfl, Nat.le_add_left 2 _⟩
      · split
        · exact (lineComment_stable (c :: rest) q).found_or_blunt fun _ => TokenKind.noConfusion
        · split
          · next opening closing hfound =>
            have hstarts := (Option.filter_eq_some_iff.mp hfound).2
            exact (blockComment_stable closing q
              (List.isPrefixOf_iff_prefix.mp hstarts)).found_or_blunt (by simp)
          · split
            · exact (blank_stable (c :: rest) q).found_or_blunt fun _ => TokenKind.noConfusion
            · split
              · next marker hfound =>
                have hlt := length_lt_of_opensVerbatim (List.find?_some hfound)
                exact (verbatim_stable q hlt).found_or_blunt (by simp)
              · split
                · exact (quoted_stable .stringLiteral c q hne).found_or_blunt (by simp)
                · split
                  · exact (quoted_stable .charLiteral c q hne).found_or_blunt (by simp)
                  · split
                    · exact (word_stable g (c :: rest) q).found_or_blunt (by simp)
                    · split
                      · exact (number_stable (c :: rest) q).found_or_blunt
                          fun _ => TokenKind.noConfusion
                      · exact Or.inl ⟨rfl, Nat.le_add_left 1 _⟩

end Lexeme

/-! ## The tokens of a cut text -/

theorem Token.not_isStructural {t : Token} (h : ∀ c, t.kind = .punctuation c → Inert [c]) :
    t.isStructural = false := by
  have hne : ∀ c, ¬Inert [c] → t.isPunct c = false := fun c hc =>
    Bool.eq_false_iff.mpr fun ht => hc (h c (isPunct_iff.mp ht))
  have hopen : t.isPunct '{' = false := hne _ fun hc => (hc '{' (by simp)).1 rfl
  have hclose : t.isPunct '}' = false := hne _ fun hc => (hc '}' (by simp)).2.1 rfl
  have hsemicolon : t.isPunct ';' = false := hne _ fun hc => (hc ';' (by simp)).2.2 rfl
  simp [isStructural, isBrace, hopen, hclose, hsemicolon]

namespace Lexer

variable {g : Grammar} {l : Lexer}

/-- A text without structure has no tokens with structure. -/
theorem not_isStructural_of_inert (l : Lexer) (h : Inert l.rest) :
    ∀ t ∈ l.tokens g, t.isStructural = false := by
  revert h
  have hhead : ∀ l : Lexer, Inert l.rest → (l.headToken g).isStructural = false := by
    intro l h
    refine Token.not_isStructural fun c hc => ?_
    change (Lexeme.atHead g l.rest).kind = .punctuation c at hc
    cases hrest : l.rest with
    | nil =>
        rw [hrest] at hc
        cases hc
    | cons d rest =>
        rw [hrest] at hc h
        exact (Lexeme.blunt_of_inert h).1 c hc
  refine tokens_induction (g := g) (motive := fun l ts =>
    Inert l.rest → ∀ t ∈ ts, t.isStructural = false) ?finished ?last ?more l
  case finished => simp
  case last =>
    intro l _ _ h t ht
    rw [List.mem_singleton.mp ht]
    exact hhead l h
  case more =>
    intro l _ _ ih h t ht
    rcases List.mem_cons.mp ht with rfl | ht
    · exact hhead l h
    · exact ih (h.drop _) t ht

/-- From a blunt lexeme on there are no tokens with structure. -/
theorem not_isStructural_of_blunt (h : Lexeme.Blunt l.rest (Lexeme.atHead g l.rest)) :
    ∀ t ∈ l.tokens g, t.isStructural = false := by
  intro t ht
  cases hf : l.finished with
  | true =>
      rw [tokens_finished hf] at ht
      cases ht
  | false =>
      rw [tokens_cons hf] at ht
      rcases List.mem_cons.mp ht with rfl | ht
      · exact Token.not_isStructural h.1
      · split at ht
        · exact not_isStructural_of_inert _ h.2 t ht
        · cases ht

/-- The lexer with some text more in front of it. -/
def withMore (l : Lexer) (q : List Char) : Lexer := { l with rest := l.rest ++ q }

/-- Where the first lexeme is found before the cut, so are the first token and what is behind it. -/
theorem head_withMore {q : List Char}
    (h : Lexeme.atHead g (l.rest ++ q) = Lexeme.atHead g l.rest)
    (hle : (Lexeme.atHead g l.rest).size ≤ l.rest.length) :
    (l.withMore q).headToken g = l.headToken g ∧
      (l.withMore q).following g = (l.following g).withMore q := by
  have htext : (l.withMore q).headText g = l.headText g := by
    rw [headText, withMore, h, List.take_append_of_le_length hle, headText]
  constructor
  · rw [headToken, htext, withMore, h, headToken]
  · rw [following, htext, withMore, h, List.drop_append_of_le_length hle]
    rfl

/-- The tokens with some text more in front of the lexer, where the first lexeme is found before the
cut. -/
theorem tokens_withMore_cons {q : List Char} (hf : l.finished = false)
    (h : Lexeme.atHead g (l.rest ++ q) = Lexeme.atHead g l.rest)
    (hle : (Lexeme.atHead g l.rest).size ≤ l.rest.length) :
    (l.withMore q).tokens g = l.headToken g ::
      if l.isBefore (l.following g) then ((l.following g).withMore q).tokens g else [] := by
  obtain ⟨hhead, hfollowing⟩ := head_withMore h hle
  have hfinished : (l.withMore q).finished = false := hf
  rw [tokens_cons hfinished, hhead, hfollowing]
  rfl

/-- The first lexeme is found before the cut, and is not the end of the input, or it is blunt. -/
theorem head_cases (hg : g.MarkersInert) (q : List Char) (l : Lexer) :
    (Lexeme.atHead g (l.rest ++ q) = Lexeme.atHead g l.rest ∧
      (Lexeme.atHead g l.rest).size ≤ l.rest.length ∧ (l.following g).finished = false) ∨
      Lexeme.Blunt l.rest (Lexeme.atHead g l.rest) := by
  cases hrest : l.rest with
  | nil =>
      refine Or.inr ⟨fun c hc => ?_, Inert.nil⟩
      cases hc
  | cons c rest =>
      refine (Lexeme.atHead_append hg q (List.cons_ne_nil c rest)).imp_left fun ⟨heq, hle⟩ =>
        ⟨heq, hle, ?_⟩
      rw [following, hrest]
      exact beq_eq_false_iff_ne.mpr (Lexeme.atHead_ne_endOfInput g c rest)

/-- **The tokens of a cut text** are those of the whole text up to a point from where on none of
them carries structure. -/
theorem tokens_withMore (hg : g.MarkersInert) (q : List Char) (l : Lexer)
    (hf : l.finished = false) :
    ∃ common tail rest, l.tokens g = common ++ tail ∧ (l.withMore q).tokens g = common ++ rest ∧
      ∀ t ∈ tail, t.isStructural = false := by
  revert hf
  refine tokens_induction (g := g) (motive := fun l _ => l.finished = false →
    ∃ common tail rest, l.tokens g = common ++ tail ∧ (l.withMore q).tokens g = common ++ rest ∧
      ∀ t ∈ tail, t.isStructural = false) ?finished ?last ?more l
  case finished =>
    intro l h hf
    rw [h] at hf
    cases hf
  case last =>
    intro l hf hb _
    rcases head_cases hg q l with ⟨heq, hle, -⟩ | hblunt
    · refine ⟨[l.headToken g], [], [], ?_, ?_, by simp⟩
      · rw [tokens_cons hf, hb]
        rfl
      · rw [tokens_withMore_cons hf heq hle, hb]
        rfl
    · -- the common part ends here
      exact ⟨[], _, _, rfl, rfl, not_isStructural_of_blunt hblunt⟩
  case more =>
    intro l hf hb ih _
    rcases head_cases hg q l with ⟨heq, hle, hfinished⟩ | hblunt
    · obtain ⟨common, tail, rest, h1, h2, h3⟩ := ih hfinished
      refine ⟨l.headToken g :: common, tail, rest, ?_, ?_, h3⟩
      · rw [tokens_cons hf, if_pos hb, h1, List.cons_append]
      · rw [tokens_withMore_cons hf heq hle, if_pos hb, h2, List.cons_append]
    · exact ⟨[], _, _, rfl, rfl, not_isStructural_of_blunt hblunt⟩

end Lexer

end DeclTags
