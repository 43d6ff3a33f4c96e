import DeclTags.Proofs.Progress
import Mathlib.Order.Bounds.Basic

set_option autoImplicit false

/-! # Restarted lexers

`Lexer.startingAt` goes over the text up to the last character that begins no later than the given
offset, and counts lines and columns on the way (`Lexer.seek_eq`). So it stands where a lexer stands
that has read the source up to there (`Lexer.stands_startingAt`), and at the place of a token it is
the very lexer that was about to yield this token (`Lexer.startingAt_offset`). What a lexer yields
depends on nothing else, so it goes on with that token and those behind it
(`Lexer.restarts_anywhere`).
-/

namespace DeclTags.Lexer

variable {g : Grammar} {source : List Char} {l : Lexer}

/-! ## Where a restarted lexer stands -/

/-- The lexer stops before the first character that ends behind the offset. -/
theorem seek_eq {offset : Nat} {p : Cursor} (cs : List Char) (h : p.offset ≤ offset) :
    ∃ before rest, cs = before ++ rest ∧ seek offset p cs = ⟨p.advance before, rest, false⟩ ∧
      p.offset + Text.byteSize before ≤ offset ∧
      ∀ c ∈ rest.head?, offset < p.offset + Text.byteSize before + c.utf8Size := by
  induction cs generalizing p with
  | nil => exact ⟨[], [], rfl, rfl, h, by simp⟩
  | cons c cs ih =>
      rw [seek]
      by_cases hc : p.offset + c.utf8Size ≤ offset
      · -- the character is passed over
        have hstep : (p.step c).offset = p.offset + c.utf8Size := by
          unfold Cursor.step
          split <;> rfl
        obtain ⟨before, rest, hcs, hseek, hle, hnext⟩ := ih (p := p.step c) (hstep ▸ hc)
        rw [hstep, Nat.add_assoc] at hle
        refine ⟨c :: before, rest, by rw [hcs, List.cons_append], ?_, hle, fun d hd => ?_⟩
        · rw [if_pos hc, hseek]
          rfl
        · have hlt := hnext d hd
          rw [hstep, Nat.add_assoc p.offset] at hlt
          exact hlt
      · refine ⟨[], c :: cs, rfl, if_neg hc, h, fun d hd => ?_⟩
        obtain rfl : c = d := Option.some.inj hd
        exact Nat.lt_of_not_le hc

/-- A restarted lexer has read the beginning of the source, and its cursor with it. -/
theorem stands_startingAt (source : List Char) (offset : Nat) :
    (startingAt source offset).Stands source := by
  obtain ⟨before, rest, hs, hseek, -, -⟩ := seek_eq (p := {}) source (Nat.zero_le offset)
  rw [startingAt, hseek]
  exact ⟨before, hs, rfl⟩

/-- It stands at the last place between two characters that is not behind the offset. -/
theorem startingAt_isGreatest (source : List Char) (offset : Nat) :
    IsGreatest {i | Text.IsBoundary source i ∧ i ≤ min offset (Text.byteSize source)}
      (startingAt source offset).cursor.offset := by
  obtain ⟨before, rest, hs, hseek, hle, hnext⟩ := seek_eq (p := {}) source (Nat.zero_le offset)
  have hoffset : (startingAt source offset).cursor.offset = Text.byteSize before := by
    rw [startingAt, hseek, Cursor.advance_offset]
    exact Nat.zero_add _
  have hbefore : Text.byteSize before ≤ offset := Nat.zero_add (Text.byteSize before) ▸ hle
  have hsize : Text.byteSize source = Text.byteSize before + Text.byteSize rest := by
    rw [hs, Text.byteSize_append]
  rw [hoffset]
  refine ⟨⟨⟨before, rest, hs, rfl⟩, Nat.le_min.mpr ⟨hbefore, by omega⟩⟩, ?_⟩
  rintro i ⟨⟨before', after', hs', rfl⟩, hi⟩
  have hi : Text.byteSize before' ≤ offset := (Nat.le_min.mp hi).1
  -- a place further on would be behind the next character, which ends behind the offset
  by_contra hlt
  have hlt : Text.byteSize before < Text.byteSize before' := Nat.lt_of_not_le hlt
  obtain ⟨part, rfl⟩ := Text.exists_part_of_lt hs hs' hlt
  cases part with
  | nil =>
      rw [List.append_nil] at hlt
      exact Nat.lt_irrefl _ hlt
  | cons c part =>
      have hboth : before ++ rest = before ++ c :: (part ++ after') := by
        rw [← hs, hs', List.append_assoc, List.cons_append]
      have hrest : rest = c :: (part ++ after') := List.append_cancel_left hboth
      have hc := hnext c (by rw [hrest, List.head?_cons, Option.mem_some_iff])
      rw [show ({} : Cursor).offset = 0 from rfl, Nat.zero_add] at hc
      rw [Text.byteSize_append, Text.byteSize] at hi
      omega

/-- Restarted at its own place, a lexer that is not finished is where it was. -/
theorem startingAt_offset (h : l.Stands source) (hf : l.finished = false) :
    startingAt source l.cursor.offset = l := by
  obtain ⟨before, hs, hc⟩ := h
  have hseek : ∀ (p : Cursor) (before : List Char),
      seek (p.advance before).offset p (before ++ l.rest) = ⟨p.advance before, l.rest, false⟩ := by
    intro p before
    induction before generalizing p with
    | nil =>
        show seek p.offset p l.rest = ⟨p, l.rest, false⟩
        cases l.rest with
        | nil => rfl
        | cons c cs =>
            have hpos := c.utf8Size_pos
            exact if_neg (by omega)
    | cons c before ih =>
        have hle : p.offset + c.utf8Size ≤ (p.advance (c :: before)).offset := by
          rw [Cursor.advance_offset, Text.byteSize]
          omega
        rw [List.cons_append, seek, if_pos hle]
        exact ih (p.step c)
  rw [startingAt, hc, hs, hseek {} before, ← hc, ← hf]

/-! ## What a restarted lexer yields -/

/-- Behind its first tokens a lexer has read a longer beginning of the source. -/
theorem Stands.after_take (h : l.Stands source) (n : Nat) : (l.take g n).2.Stands source := by
  induction n generalizing l with
  | zero => exact h
  | succ n ih =>
      cases hf : l.finished with
      | true =>
          rw [take_finished hf]
          exact h
      | false =>
          rw [take_succ hf]
          exact ih h.following

/-- As long as the end is not reported there are as many tokens as were asked for; there are never
more. -/
theorem length_take (g : Grammar) (l : Lexer) (n : Nat) :
    (l.take g n).1.length ≤ n ∧
      ((l.take g n).2.finished = false → (l.take g n).1.length = n) := by
  induction n generalizing l with
  | zero => exact ⟨Nat.le_refl 0, fun _ => rfl⟩
  | succ n ih =>
      cases hf : l.finished with
      | true =>
          rw [take_finished hf]
          refine ⟨Nat.zero_le _, fun h => ?_⟩
          rw [hf] at h
          cases h
      | false =>
          rw [take_succ hf]
          obtain ⟨hle, heq⟩ := ih (l.following g)
          exact ⟨Nat.succ_le_succ hle, fun h => congrArg (· + 1) (heq h)⟩

/-- Where the `n`-th token is, the lexer behind the tokens before it is about to yield it. -/
theorem getElem?_take {n k : Nat} {t : Token} (h : (l.take g (n + k)).1[n]? = some t) :
    (l.take g n).1.length = n ∧ (l.take g n).2.finished = false ∧
      t = (l.take g n).2.headToken g := by
  obtain ⟨hle, heq⟩ := length_take g l n
  rw [take_add] at h
  cases hf : (l.take g n).2.finished with
  | true =>
      rw [take_finished hf, List.append_nil, List.getElem?_eq_none hle] at h
      cases h
  | false =>
      have hlen := heq hf
      rw [List.getElem?_append_right hle, hlen, Nat.sub_self] at h
      cases k with
      | zero => cases h
      | succ k =>
          rw [take_succ hf, List.getElem?_cons_zero] at h
          exact ⟨hlen, rfl, (Option.some.inj h).symm⟩

/-- **The lexer is restartable.** At the place of any token of the stream it yields this token and
then those behind it, and ends where they end. At any other offset it begins at the last place
between two characters that is not behind it, on the line and in the column of that place, and its
tokens tile the rest of the source. -/
theorem restarts_anywhere (g : Grammar) (source : List Char) :
    (∀ n k t, ((ofSource source).take g (n + k)).1[n]? = some t →
      (startingAt source t.start).take g k =
        (((ofSource source).take g (n + k)).1.drop n, ((ofSource source).take g (n + k)).2)) ∧
    ∀ offset,
      let l := startingAt source offset
      IsGreatest {i | Text.IsBoundary source i ∧ i ≤ min offset (Text.byteSize source)}
        l.cursor.offset ∧
      (∃ before, source = before ++ l.rest ∧
        l.cursor = ⟨Text.byteSize before, 1 + before.count '\n',
          1 + (Text.lastLine before).length⟩) ∧
      ∀ n,
        let ts := (l.take g n).1
        (∀ t ∈ ts, t.IsPlaced source) ∧
        (∀ t ∈ ts.head?, t.start = l.cursor.offset) ∧
        ts.IsChain (fun a b => a.stop = b.start) ∧
        ((∃ eof ∈ ts, eof.kind = .endOfInput) → (l.take g n).2.next? g = none) ∧
        ((l.take g n).2.next? g = none → ∃ init eof, ts = init ++ [eof] ∧
          eof.kind = .endOfInput ∧ eof.text = "" ∧ eof.start = Text.byteSize source ∧
          ∀ t ∈ init, t.kind ≠ .endOfInput) := by
  refine ⟨fun n k t h => ?_, fun offset => ?_⟩
  · obtain ⟨hlen, hf, rfl⟩ := getElem?_take h
    have hstands : ((ofSource source).take g n).2.Stands source :=
      (Stands.ofSource source).after_take n
    have hstart : startingAt source (((ofSource source).take g n).2.headToken g).start =
        ((ofSource source).take g n).2 := startingAt_offset hstands hf
    rw [hstart, take_add, List.drop_left' hlen]
  · intro l
    have hstands : l.Stands source := stands_startingAt source offset
    refine ⟨startingAt_isGreatest source offset, ?_, fun n => ?_⟩
    · obtain ⟨before, hs, hc⟩ := hstands
      exact ⟨before, hs, hc.trans (Cursor.advance_eq before)⟩
    · intro ts
      have hf : l.finished = false := by
        obtain ⟨before, rest, -, hseek, -⟩ := seek_eq (p := {}) source (Nat.zero_le offset)
        show (startingAt source offset).finished = false
        rw [startingAt, hseek]
      obtain ⟨hplaced, hfirst, hchain⟩ := hstands.take (g := g) n
      obtain ⟨hend, hlast⟩ := hstands.take_end (g := g) hf n
      refine ⟨hplaced, hfirst, hchain, fun heof => ?_, fun hnone => ?_⟩
      · exact next?_eq_none_iff.mpr (hend heof)
      · exact hlast (next?_eq_none_iff.mp hnone)

end DeclTags.Lexer
