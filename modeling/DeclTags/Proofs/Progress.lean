import DeclTags.Profile.Builtin
import DeclTags.Proofs.Places

set_option autoImplicit false

/-! # Progress of the lexer

With the grammar of a profile without fault each token takes some of the source, and the lexer comes
to its end, with one exception. A line comment does not take the carriage return at the end of the
text along; if a lone carriage return is the marker of line comments, and the lexer stands before
one at the very end, then the comment is empty and the lexer stays where it is (`Lexer.Stalls`).
Lexing reaches the end exactly if that never happens (`Lexer.reaches_end_iff_never_stalls`), and it
does happen (`Lexer.stalls_at_lone_return`).
-/

namespace DeclTags.Lexer

variable {g : Grammar} {l : Lexer}

/-- The lexer stands before a last carriage return, and that is the marker of line comments. -/
def Stalls (g : Grammar) (l : Lexer) : Prop :=
  l.finished = false ∧ l.rest = ['\r'] ∧ g.lineComment = some "\r"

/-! ## A lexer that stalls -/

theorem atHead_of_lone_return (h : g.lineComment = some "\r") :
    Lexeme.atHead g ['\r'] = ⟨.lineComment, 0, true⟩ := by
  have hs : g.lineComment.any (Lexeme.startsWith ['\r']) = true := by rw [h]; rfl
  simp [Lexeme.atHead, hs, Lexeme.lineComment, Lexeme.sizeBeforeReturn]

/-- A lexer that stalls yields an empty comment and stays as it is. -/
theorem Stalls.step (h : l.Stalls g) :
    l.following g = l ∧ (l.headToken g).kind = .lineComment ∧
      (l.headToken g).start = (l.headToken g).stop := by
  obtain ⟨hf, hr, hm⟩ := h
  have hhead := atHead_of_lone_return hm
  have htext : l.headText g = [] := by rw [headText, hr, hhead, List.take_zero]
  refine ⟨?_, ?_, ?_⟩
  · rw [following, htext, hr, hhead, List.drop_zero]
    show (⟨l.cursor, ['\r'], false⟩ : Lexer) = l
    rw [← hf, ← hr]
  · rw [headToken, hr, hhead]
  · rw [headToken, htext]
    rfl

/-- From there on all tokens are that comment. -/
theorem Stalls.take (h : l.Stalls g) (n : Nat) :
    l.take g n = (List.replicate n (l.headToken g), l) := by
  induction n with
  | zero => rfl
  | succ n ih => rw [take_succ h.1, h.step.1, ih, List.replicate_succ]

/-! ## A lexer that gets on -/

/-- Before some text a lexer that does not stall takes some of it. -/
theorem headText_ne_nil_of_not_stalls (hg : g.MarkersNonempty) (hf : l.finished = false)
    (hne : l.rest ≠ []) (hs : ¬l.Stalls g) : l.headText g ≠ [] :=
  headText_ne_nil hg hne fun hm hr => hs ⟨hf, hr, hm⟩

theorem rest_eq_append (g : Grammar) (l : Lexer) : l.rest = l.headText g ++ (l.following g).rest :=
  (List.take_append_drop _ _).symm

/-- Taking some tokens, and some more behind them. -/
theorem take_add (g : Grammar) (m n : Nat) (l : Lexer) :
    l.take g (m + n) =
      ((l.take g m).1 ++ ((l.take g m).2.take g n).1, ((l.take g m).2.take g n).2) := by
  induction m generalizing l with
  | zero => rw [Nat.zero_add]; rfl
  | succ m ih =>
      cases hf : l.finished with
      | true => rw [take_finished hf, take_finished hf, take_finished hf]; rfl
      | false => rw [Nat.add_right_comm, take_succ hf, take_succ hf, ih]; rfl

/-- A lexer that never stalls reaches the end within as many tokens as there are bytes, and one
more. -/
theorem take_of_never_stalls (hg : g.MarkersNonempty) (hf : l.finished = false)
    (hs : ∀ n, ¬(l.take g n).2.Stalls g) {m : Nat} (hm : Text.byteSize l.rest < m) :
    ∃ init eof, (l.take g m).1 = init ++ [eof] ∧ l.tokens g = init ++ [eof] ∧
      eof.kind = .endOfInput ∧ ∀ t ∈ init, t.start < t.stop ∧ t.kind ≠ .endOfInput := by
  induction m generalizing l with
  | zero => exact absurd hm (Nat.not_lt_zero _)
  | succ m ih =>
      rw [take_succ hf, tokens_cons hf]
      by_cases hr : l.rest = []
      · -- only the end is left
        have hfin : (l.following g).finished = true := following_finished_iff.mpr hr
        refine ⟨[], l.headToken g, ?_, ?_, headToken_endOfInput_iff.mpr hr, by simp⟩
        · rw [take_finished hfin]
          rfl
        · rw [tokens_finished hfin, ite_self]
          rfl
      · have hne : l.headText g ≠ [] := headText_ne_nil_of_not_stalls hg hf hr (hs 0)
        have hlt := Text.byteSize_pos hne
        have hfin : (l.following g).finished = false := by
          rw [Bool.eq_false_iff, ne_eq, following_finished_iff]
          exact hr
        have hbefore : l.isBefore (l.following g) = true := by
          simp only [isBefore, following_offset, Bool.or_eq_true, decide_eq_true_eq]
          omega
        have hrest : Text.byteSize (l.following g).rest < m := by
          have hsize := congrArg Text.byteSize (rest_eq_append g l)
          rw [Text.byteSize_append] at hsize
          omega
        have hs' : ∀ n, ¬((l.following g).take g n).2.Stalls g := fun n => by
          have := hs (n + 1)
          rwa [take_succ hf] at this
        -- the token took a byte at least, so the bound does for the rest
        obtain ⟨init, eof, htake, htokens, heof, hinit⟩ := ih hfin hs' hrest
        refine ⟨l.headToken g :: init, eof, by rw [htake]; rfl, ?_, heof, fun t ht => ?_⟩
        · rw [if_pos hbefore, htokens]
          rfl
        · rcases List.mem_cons.mp ht with rfl | ht
          · refine ⟨?_, fun hk => hr (headToken_endOfInput_iff.mp hk)⟩
            show l.cursor.offset < (l.cursor.advance (l.headText g)).offset
            rw [Cursor.advance_offset]
            omega
          · exact hinit t ht

/-! ## Reaching the end -/

/-- **Lexing reaches the end** of a source exactly if the lexer never stalls. Then it takes at most
as many tokens as there are bytes, and one more, each of them but the last with at least one byte.
If it stalls, all further tokens are one and the same empty comment. -/
theorem reaches_end_iff_never_stalls {p : Profile} (hg : Grammar.compile p = .ok g)
    (source : List Char) :
    let read := fun n => (ofSource source).take g n
    ((∃ n, ∃ eof ∈ (read n).1, eof.kind = .endOfInput) ↔ ∀ n, ¬(read n).2.Stalls g) ∧
    ((∀ n, ¬(read n).2.Stalls g) →
      ∃ init eof, (read (Text.byteSize source + 1)).1 = init ++ [eof] ∧
        tokensOf g source = init ++ [eof] ∧ eof.kind = .endOfInput ∧
        ∀ t ∈ init, t.start < t.stop ∧ t.kind ≠ .endOfInput) ∧
    (∀ n, (read n).2.Stalls g → ∃ t : Token, t.kind = .lineComment ∧ t.start = t.stop ∧
      ∀ m, (read (n + m)).1 = (read n).1 ++ List.replicate m t) := by
  intro read
  have hmarkers : g.MarkersNonempty := Grammar.Compiled.markersNonempty ⟨p, hg⟩
  have hends := fun hs : ∀ n, ¬(read n).2.Stalls g =>
    take_of_never_stalls hmarkers rfl hs (Nat.lt_succ_self (Text.byteSize source))
  have hstalls : ∀ n, (read n).2.Stalls g → ∃ t : Token, t.kind = .lineComment ∧
      t.start = t.stop ∧ ∀ m, (read (n + m)).1 = (read n).1 ++ List.replicate m t := by
    intro n h
    refine ⟨_, h.step.2.1, h.step.2.2, fun m => ?_⟩
    show ((ofSource source).take g (n + m)).1 = _
    rw [take_add, h.take]
  refine ⟨⟨?_, fun hs => ?_⟩, hends, hstalls⟩
  · -- where it stalls it has not seen the end, and behind that it does not either
    rintro ⟨k, eof, hmem, heof⟩ n h
    obtain ⟨t, ht, -, hread⟩ := hstalls n h
    have hsub : eof ∈ (read (n + k)).1 := by
      show eof ∈ ((ofSource source).take g (n + k)).1
      rw [Nat.add_comm, take_add]
      exact List.mem_append_left _ hmem
    rw [hread, List.mem_append] at hsub
    rcases hsub with hsub | hsub
    · have hfin := ((Stands.ofSource source).take_end (g := g) rfl n).1 ⟨eof, hsub, heof⟩
      rw [h.1] at hfin
      cases hfin
    · rw [List.eq_of_mem_replicate hsub, ht] at heof
      cases heof
  · obtain ⟨init, eof, hread, -, heof, -⟩ := hends hs
    exact ⟨_, eof, hread ▸ List.mem_append_right _ (List.mem_singleton_self _), heof⟩

/-- A source with both kinds of comments, a string without its end and a line end of two
characters. -/
theorem reaches_end_of_comments :
    let source := "a /* b */ \"c // d\r\n".toList
    Grammar.compile .java = .ok (.ofProfile .java) ∧
      ∃ init eof, ((ofSource source).take (.ofProfile .java) 20).1 = init ++ [eof] ∧
        tokensOf (.ofProfile .java) source = init ++ [eof] ∧ eof.kind = .endOfInput ∧
        ∀ t ∈ init, t.start < t.stop ∧ t.kind ≠ .endOfInput := by
  intro source
  have hjava : Grammar.compile .java = .ok (.ofProfile .java) := by
    have hvalid : Profile.java.fault? = none := by decide +kernel
    rw [Grammar.compile, hvalid]
  have hsize : Text.byteSize source + 1 = 20 := by decide +kernel
  have hend := (reaches_end_iff_never_stalls hjava source).2.1 fun n h =>
    absurd h.2.2 (by decide)
  rw [hsize] at hend
  exact ⟨hjava, hend⟩

/-- A profile without fault in which a lone carriage return begins a line comment. -/
def returnProfile : Profile := { name := "returns", comments := { line := some "\r" } }

/-- **A sound profile with which a scan hangs**: of a source that is a single carriage return, the
lexer yields one empty comment after the other and never the end. -/
theorem stalls_at_lone_return :
    Grammar.compile returnProfile = .ok (.ofProfile returnProfile) ∧
    ∀ n, ((ofSource ['\r']).take (.ofProfile returnProfile) n).1 =
      List.replicate n ⟨.lineComment, "", 0, 0, 1, 1, true⟩ := by
  constructor
  · have hvalid : returnProfile.fault? = none := by decide +kernel
    rw [Grammar.compile, hvalid]
  · intro n
    have h : (ofSource ['\r']).Stalls (.ofProfile returnProfile) := ⟨rfl, rfl, rfl⟩
    rw [h.take, headToken, headText]
    show List.replicate n (Token.mk (Lexeme.atHead _ ['\r']).kind _ _ _ _ _ _) = _
    rw [show (ofSource ['\r']).rest = ['\r'] from rfl, atHead_of_lone_return rfl]
    rfl

end DeclTags.Lexer
