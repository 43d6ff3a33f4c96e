import DeclTags.Proofs.Streams
import Mathlib.Data.List.Chain
import Mathlib.Data.List.Induction

set_option autoImplicit false

/-! # The places of the tokens

A cursor that has gone over a text has counted its bytes, its line feeds and the characters of its
last line (`Cursor.advance_eq`). A lexer always stands at such a cursor, behind the part of the
source that it has read (`Lexer.Stands`), so each token tells where it begins, and the tokens tile
the source (`Lexer.stream_tiles`).

The statements are about `Lexer.take`, the first so many tokens, and not about the whole list of
tokens: they hold of a stream without an end too.
-/

namespace DeclTags

/-! ## Cursors -/

/-- The characters behind the last line feed. -/
def Text.lastLine (cs : List Char) : List Char := (cs.reverse.takeWhile (· ≠ '\n')).reverse

theorem Text.lastLine_concat_feed (cs : List Char) : lastLine (cs ++ ['\n']) = [] := by
  simp [lastLine]

theorem Text.lastLine_concat (cs : List Char) {c : Char} (h : c ≠ '\n') :
    lastLine (cs ++ [c]) = lastLine cs ++ [c] := by
  simp [lastLine, h]

namespace Cursor

theorem advance_append (p : Cursor) (cs ds : List Char) :
    p.advance (cs ++ ds) = (p.advance cs).advance ds := List.foldl_append

/-- Behind a text, the cursor knows its bytes, its line feeds and its last line. -/
theorem advance_eq (cs : List Char) :
    ({} : Cursor).advance cs =
      ⟨Text.byteSize cs, 1 + cs.count '\n', 1 + (Text.lastLine cs).length⟩ := by
  -- the last line changes at its end, so the induction goes that way
  induction cs using List.reverseRecOn with
  | nil => rfl
  | append_singleton cs c ih =>
      rw [advance_append, ih, Text.byteSize_append]
      show step _ c = _
      by_cases hc : c = '\n'
      · subst hc
        rw [Text.lastLine_concat_feed, List.count_append, step, if_pos rfl]
        rfl
      · rw [Text.lastLine_concat cs hc, List.count_append, step, if_neg hc,
          List.count_singleton, List.length_append]
        simp [hc, Text.byteSize, Nat.add_assoc]

end Cursor

/-! ## Tokens in their places -/

/-- The token is a part of the source, and begins where it says: at a byte, on a line and in a
column of that line. -/
def Token.IsPlaced (source : List Char) (t : Token) : Prop :=
  ∃ before part after, source = before ++ part ++ after ∧ t.text = String.ofList part ∧
    t.start = Text.byteSize before ∧ t.stop = Text.byteSize (before ++ part) ∧
    t.line = 1 + before.count '\n' ∧ t.column = 1 + (Text.lastLine before).length

namespace Token.IsPlaced

variable {source : List Char} {t : Token}

theorem isPart (h : t.IsPlaced source) : t.IsPart source := by
  obtain ⟨before, part, after, hs, -, hstart, hstop, -⟩ := h
  exact ⟨⟨before, part ++ after, by rw [hs, List.append_assoc], hstart⟩,
    ⟨before ++ part, after, hs, hstop⟩⟩

theorem start_le_stop (h : t.IsPlaced source) : t.start ≤ t.stop := by
  obtain ⟨before, part, after, -, -, hstart, hstop, -⟩ := h
  rw [hstart, hstop, Text.byteSize_append]
  exact Nat.le_add_right _ _

end Token.IsPlaced

namespace Lexer

variable {g : Grammar} {source : List Char} {l : Lexer}

/-- The lexer has read the beginning of the source, and its cursor with it. -/
def Stands (source : List Char) (l : Lexer) : Prop :=
  ∃ before, source = before ++ l.rest ∧ l.cursor = ({} : Cursor).advance before

namespace Stands

theorem ofSource (source : List Char) : (Lexer.ofSource source).Stands source := ⟨[], rfl, rfl⟩

theorem following (h : l.Stands source) : (l.following g).Stands source := by
  obtain ⟨before, hs, hc⟩ := h
  refine ⟨before ++ l.headText g, ?_, ?_⟩
  · rw [hs, Lexer.following, List.append_assoc, headText, List.take_append_drop]
  · rw [Lexer.following, hc, Cursor.advance_append]

/-- The next token is in its place. -/
theorem headToken (h : l.Stands source) : (l.headToken g).IsPlaced source := by
  obtain ⟨before, hs, hc⟩ := h
  have hcursor := hc.trans (Cursor.advance_eq before)
  refine ⟨before, l.headText g, (l.following g).rest, ?_, rfl, ?_, ?_, ?_, ?_⟩
  · rw [hs, Lexer.following, List.append_assoc, headText, List.take_append_drop]
  · rw [Lexer.headToken, hcursor]
  · rw [Lexer.headToken, Cursor.advance_offset, hcursor, Text.byteSize_append]
  · rw [Lexer.headToken, hcursor]
  · rw [Lexer.headToken, hcursor]

/-- At the end of the text the whole source is read. -/
theorem offset_of_rest_eq_nil (h : l.Stands source) (hr : l.rest = []) :
    l.cursor.offset = Text.byteSize source := by
  obtain ⟨before, hs, hc⟩ := h
  rw [hs, hr, List.append_nil, hc, Cursor.advance_eq]

end Stands

/-! ## The first tokens -/

theorem takeOnto_eq (g : Grammar) (read : List Token) (n : Nat) (l : Lexer) :
    takeOnto g read n l = (read.reverse ++ (l.take g n).1, (l.take g n).2) := by
  induction n generalizing l read with
  | zero => rw [take, takeOnto, takeOnto, List.reverse_nil, List.append_nil]
  | succ n ih =>
      rw [take, takeOnto, takeOnto]
      cases l.next? g with
      | none => rw [List.reverse_nil, List.append_nil]
      | some pair =>
          obtain ⟨t, after⟩ := pair
          simp only [ih (t :: read) after, ih [t] after]
          simp

@[simp] theorem take_zero (g : Grammar) (l : Lexer) : l.take g 0 = ([], l) := rfl

/-- Behind the end of the input there are no more tokens. -/
theorem take_finished (h : l.finished = true) (n : Nat) : l.take g n = ([], l) := by
  cases n with
  | zero => rfl
  | succ n => rw [take, takeOnto, next?_eq, h, if_pos rfl]; rfl

/-- The first tokens are the next one and the first ones behind it. -/
theorem take_succ (h : l.finished = false) (n : Nat) :
    l.take g (n + 1) =
      (l.headToken g :: ((l.following g).take g n).1, ((l.following g).take g n).2) := by
  rw [take, takeOnto, next?_eq, h, if_neg Bool.false_ne_true]
  show takeOnto g [l.headToken g] n (l.following g) = _
  rw [takeOnto_eq, List.reverse_singleton, List.singleton_append]

theorem headToken_endOfInput_iff : (l.headToken g).kind = .endOfInput ↔ l.rest = [] := by
  show (Lexeme.atHead g l.rest).kind = .endOfInput ↔ _
  cases l.rest with
  | nil => exact iff_of_true rfl rfl
  | cons c rest =>
      exact iff_of_false (Lexeme.atHead_ne_endOfInput g c rest) (List.cons_ne_nil c rest)

theorem following_finished_iff : (l.following g).finished = true ↔ l.rest = [] :=
  beq_iff_eq.trans headToken_endOfInput_iff

/-- The first tokens are in their places, the first of them where the lexer stands, and each other
one where the one before it ends. -/
theorem Stands.take (h : l.Stands source) (n : Nat) :
    (∀ t ∈ (l.take g n).1, t.IsPlaced source) ∧
    (∀ t ∈ (l.take g n).1.head?, t.start = l.cursor.offset) ∧
    (l.take g n).1.IsChain (fun a b => a.stop = b.start) := by
  induction n generalizing l with
  | zero => exact ⟨by simp, by simp, by simp⟩
  | succ n ih =>
      cases hf : l.finished with
      | true =>
          rw [take_finished hf]
          exact ⟨by simp, by simp, by simp⟩
      | false =>
          obtain ⟨hplaced, hfirst, hchain⟩ := ih (h.following (g := g))
          rw [take_succ hf]
          refine ⟨fun t ht => ?_, fun t ht => ?_, ?_⟩
          · rcases List.mem_cons.mp ht with rfl | ht
            · exact h.headToken
            · exact hplaced t ht
          · obtain rfl := Option.some.inj ht
            rfl
          · refine List.isChain_cons.mpr ⟨fun t ht => ?_, hchain⟩
            exact (hfirst t ht).symm

/-- The stream ends with the first token of the kind `endOfInput`, and that stands at the end of the
source and is empty. -/
theorem Stands.take_end (h : l.Stands source) (hf : l.finished = false) (n : Nat) :
    ((∃ eof ∈ (l.take g n).1, eof.kind = .endOfInput) → (l.take g n).2.finished = true) ∧
    ((l.take g n).2.finished = true → ∃ init eof, (l.take g n).1 = init ++ [eof] ∧
      eof.kind = .endOfInput ∧ eof.text = "" ∧ eof.start = Text.byteSize source ∧
      ∀ t ∈ init, t.kind ≠ .endOfInput) := by
  induction n generalizing l with
  | zero => exact ⟨by simp, by simp [hf]⟩
  | succ n ih =>
      rw [take_succ hf]
      cases hr : (l.following g).finished with
      | true =>
          -- this is the end, and nothing is read behind it
          have hnil : l.rest = [] := following_finished_iff.mp hr
          rw [take_finished hr]
          refine ⟨fun _ => hr, fun _ => ⟨[], l.headToken g, rfl, ?_, ?_, ?_, by simp⟩⟩
          · exact headToken_endOfInput_iff.mpr hnil
          · rw [Lexer.headToken, headText, hnil, List.take_nil]
          · exact h.offset_of_rest_eq_nil hnil
      | false =>
          have hk : (l.headToken g).kind ≠ .endOfInput := fun hk => by
            rw [following_finished_iff.mpr (headToken_endOfInput_iff.mp hk)] at hr
            cases hr
          obtain ⟨hend, hlast⟩ := ih (h.following (g := g)) hr
          refine ⟨fun hsome => ?_, fun hfin => ?_⟩
          · obtain ⟨eof, hmem, heof⟩ := hsome
            rcases List.mem_cons.mp hmem with rfl | hmem
            · exact absurd heof hk
            · exact hend ⟨eof, hmem, heof⟩
          · obtain ⟨init, eof, hts, heof, htext, hstart, hinit⟩ := hlast hfin
            refine ⟨l.headToken g :: init, eof, by rw [hts, List.cons_append], heof, htext, hstart,
              fun t ht => ?_⟩
            rcases List.mem_cons.mp ht with rfl | ht
            · exact hk
            · exact hinit t ht

/-- Only behind the end of the input there is no next token. -/
theorem next?_eq_none_iff : l.next? g = none ↔ l.finished = true := by
  rw [next?_eq]
  cases l.finished <;> simp

/-- **The tokens tile the source**: the first of them begins at its first byte, each other one where
the one before it ends, and each is the part of the source between its two offsets and tells its
line and its column. If the stream ends, then with one empty token for the end of the input, at the
end of the source; and nothing follows such a token. -/
theorem stream_tiles (g : Grammar) (source : List Char) (n : Nat) :
    let ts := ((ofSource source).take g n).1
    let l := ((ofSource source).take g n).2
    (∀ t ∈ ts, t.IsPlaced source) ∧
    (∀ t ∈ ts.head?, t.start = 0) ∧
    ts.IsChain (fun a b => a.stop = b.start) ∧
    ((∃ eof ∈ ts, eof.kind = .endOfInput) → l.next? g = none) ∧
    (l.next? g = none → ∃ init eof, ts = init ++ [eof] ∧ eof.kind = .endOfInput ∧
      eof.text = "" ∧ eof.start = Text.byteSize source ∧ ∀ t ∈ init, t.kind ≠ .endOfInput) := by
  intro ts l
  have h := Stands.ofSource source
  obtain ⟨hplaced, hfirst, hchain⟩ := h.take (g := g) n
  obtain ⟨hend, hlast⟩ := h.take_end (g := g) rfl n
  refine ⟨hplaced, hfirst, hchain, fun heof => ?_, fun hnone => ?_⟩
  · exact next?_eq_none_iff.mpr (hend heof)
  · exact hlast (next?_eq_none_iff.mp hnone)

end Lexer

end DeclTags
