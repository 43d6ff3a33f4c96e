import DeclTags.Profile.Builtin
import DeclTags.Proofs.Cuts
import DeclTags.Proofs.Chunks
import Mathlib.Data.List.TakeWhile

set_option autoImplicit false

/-! # The character automaton of Java

The lexer takes comments and literals whole, by searching for their ends. For Java the same can be
said one character at a time: an automaton stands in code, in a comment or in a literal, and moves
at each character (`Automaton.step`), with one character of lookahead for the markers of comments.
It marks the braces, parentheses and semicolons that it meets in code, and every passage through a
comment or literal with the way in which it was left.

`tokens_show_marks`: the tokens of the lexer of these kinds are exactly the marks of the automaton.
The proof goes along the lexer's recursion, and each form of lexeme is one lemma on what the
automaton does over the characters of that form.
-/

namespace DeclTags

namespace Automaton

/-! ## The automaton -/

/-- What code is interrupted by. -/
inductive Passage where
  | lineComment
  | blockComment
  | string
  | char
  deriving DecidableEq, Repr

/-- In code, or in a passage that begins at a byte offset. -/
inductive Mode where
  | code
  | inside (passage : Passage) (start : Nat)
  deriving DecidableEq, Repr

/-- How a passage is left: by its own end, at a bare line feed, or because the input ends. -/
inductive Leaving where
  | closed
  | newline
  | input
  deriving DecidableEq, Repr

inductive Mark where
  /-- A brace, a parenthesis or a semicolon in code. -/
  | punctuation (c : Char) (offset : Nat)
  | passage (passage : Passage) (start : Nat) (leaving : Leaving)
  deriving DecidableEq, Repr

/-- The characters that are marked in code. -/
def isMarked (c : Char) : Bool := ['{', '}', '(', ')', ';'].contains c

/-- The mark of a character in code. -/
def inCode (c : Char) (offset : Nat) : List Mark :=
  if isMarked c then [.punctuation c offset] else []

/-- One move: the mode behind it, whether the character after this one is taken along, and the
marks that it makes. -/
structure Move where
  mode : Mode
  both : Bool := false
  marks : List Mark := []

/-- The move at a character in a literal: a backslash takes the next character along, the delimiter
closes, and a line feed leaves and is itself code. -/
def literalStep (passage : Passage) (delimiter : Char) (start offset : Nat) (c : Char) : Move :=
  if c = '\\' then { mode := .inside passage start, both := true }
  else if c = '\n' then
    { mode := .code, marks := .passage passage start .newline :: inCode c offset }
  else if c = delimiter then { mode := .code, marks := [.passage passage start .closed] }
  else { mode := .inside passage start }

/-- The move at the character `c` at a byte offset, `next` being the character after it. -/
def step (mode : Mode) (offset : Nat) (c : Char) (next : Option Char) : Move :=
  match mode with
  | .code =>
    if c = '/' ∧ next = some '/' then { mode := .inside .lineComment offset, both := true }
    else if c = '/' ∧ next = some '*' then { mode := .inside .blockComment offset, both := true }
    else if c = '"' then { mode := .inside .string offset }
    else if c = '\'' then { mode := .inside .char offset }
    else { mode := .code, marks := inCode c offset }
  | .inside .lineComment start =>
    if c = '\n' then
      { mode := .code, marks := .passage .lineComment start .newline :: inCode c offset }
    else { mode }
  | .inside .blockComment start =>
    if c = '*' ∧ next = some '/' then
      { mode := .code, both := true, marks := [.passage .blockComment start .closed] }
    else { mode }
  | .inside .string start => literalStep .string '"' start offset c
  | .inside .char start => literalStep .char '\'' start offset c

/-- What is marked when the input ends in a mode. -/
def atEnd : Mode → List Mark
  | .code => []
  | .inside passage start => [.passage passage start .input]

/-- The marks that are made over a text, from a mode and a byte offset on. -/
def run (mode : Mode) (offset : Nat) : List Char → List Mark
  | [] => atEnd mode
  | [c] =>
    let move := step mode offset c none
    move.marks ++ atEnd move.mode
  | c :: d :: cs =>
    let move := step mode offset c (some d)
    move.marks ++
      if move.both then run move.mode (offset + c.utf8Size + d.utf8Size) cs
      else run move.mode (offset + c.utf8Size) (d :: cs)

/-- The marks of a source text. -/
def marks (source : List Char) : List Mark := run .code 0 source

/-! ## Moves -/

theorem run_nil (mode : Mode) (offset : Nat) : run mode offset [] = atEnd mode := rfl

/-- A move over one character. -/
theorem run_one {mode : Mode} {offset : Nat} {c : Char} {cs : List Char}
    (h : (step mode offset c cs.head?).both = false) :
    run mode offset (c :: cs) = (step mode offset c cs.head?).marks ++
      run (step mode offset c cs.head?).mode (offset + c.utf8Size) cs := by
  cases cs with
  | nil => rfl
  | cons d cs =>
      rw [List.head?_cons] at h
      rw [run, h]
      rfl

/-- A move over two characters. -/
theorem run_two {mode : Mode} {offset : Nat} {c d : Char} {cs : List Char}
    (h : (step mode offset c (some d)).both = true) :
    run mode offset (c :: d :: cs) = (step mode offset c (some d)).marks ++
      run (step mode offset c (some d)).mode (offset + c.utf8Size + d.utf8Size) cs := by
  rw [run, h]
  rfl

/-! ## Code -/

/-- A character that means nothing in code. -/
def IsPlain (c : Char) : Prop := c ≠ '/' ∧ c ≠ '"' ∧ c ≠ '\'' ∧ isMarked c = false

instance : DecidablePred IsPlain := fun c =>
  inferInstanceAs (Decidable (c ≠ '/' ∧ c ≠ '"' ∧ c ≠ '\'' ∧ isMarked c = false))

/-- In code, what begins no passage is passed over by itself. -/
theorem run_code {offset : Nat} {c : Char} {cs : List Char}
    (hline : ¬(c = '/' ∧ cs.head? = some '/')) (hblock : ¬(c = '/' ∧ cs.head? = some '*'))
    (hstring : c ≠ '"') (hchar : c ≠ '\'') :
    run .code offset (c :: cs) = inCode c offset ++ run .code (offset + c.utf8Size) cs := by
  have hstep : step .code offset c cs.head? = { mode := .code, marks := inCode c offset } := by
    simp only [step, if_neg hline, if_neg hblock, if_neg hstring, if_neg hchar]
  rw [run_one (by rw [hstep]), hstep]

/-- Plain characters make no mark. -/
theorem run_plain (p : List Char) (hp : ∀ c ∈ p, IsPlain c) (offset : Nat) (cs : List Char) :
    run .code offset (p ++ cs) = run .code (offset + Text.byteSize p) cs := by
  induction p generalizing offset with
  | nil => rfl
  | cons c p ih =>
      obtain ⟨hslash, hstring, hchar, hmarked⟩ := hp c List.mem_cons_self
      have hnone : inCode c offset = [] := by simp [inCode, hmarked]
      rw [List.cons_append, run_code (fun h => hslash h.1) (fun h => hslash h.1) hstring hchar,
        hnone, List.nil_append, ih (fun d hd => hp d (List.mem_cons_of_mem _ hd)), Text.byteSize,
        Nat.add_assoc]

/-- Characters that end with a carriage return are some others and that one. -/
theorem exists_eq_append_return {n : Nat} {cs : List Char} (hn : n ≤ cs.length)
    (hlast : (cs.take n).getLast? = some '\r') :
    ∃ p rest, cs = p ++ '\r' :: rest ∧ n = p.length + 1 := by
  obtain ⟨p, hp⟩ := List.getLast?_eq_some_iff.mp hlast
  refine ⟨p, cs.drop n, ?_, ?_⟩
  · calc cs = cs.take n ++ cs.drop n := (List.take_append_drop n cs).symm
      _ = p ++ '\r' :: cs.drop n := by rw [hp, List.append_assoc, List.singleton_append]
  · have hlen := congrArg List.length hp
    rw [List.length_take_of_le hn, List.length_append, List.length_singleton] at hlen
    exact hlen

/-- A carriage return at the end of some characters makes no difference to what follows. -/
theorem run_sizeBeforeReturn {n : Nat} {cs : List Char} (hn : n ≤ cs.length) (offset : Nat) :
    run .code (offset + Text.byteSize (cs.take (Lexeme.sizeBeforeReturn n cs)))
        (cs.drop (Lexeme.sizeBeforeReturn n cs)) =
      run .code (offset + Text.byteSize (cs.take n)) (cs.drop n) := by
  rcases Lexeme.sizeBeforeReturn_cases n cs with heq | ⟨heq, hlast⟩
  · rw [heq]
  · obtain ⟨p, rest, rfl, rfl⟩ := exists_eq_append_return hn hlast
    have hplain : ∀ c ∈ ['\r'], IsPlain c := List.forall_mem_singleton.mpr (by decide)
    have hreturn := run_plain ['\r'] hplain (offset + Text.byteSize p) rest
    have hsplit : p ++ '\r' :: rest = (p ++ ['\r']) ++ rest := by simp
    have hlen : p.length + 1 = (p ++ ['\r']).length := by simp
    rw [heq, Nat.add_sub_cancel, List.take_left, List.drop_left, hsplit, hlen, List.take_left,
      List.drop_left, Text.byteSize_append, ← Nat.add_assoc]
    exact hreturn

/-! ## Passages -/

/-- A line comment is left at the first line feed. -/
theorem run_lineComment (start offset : Nat) (cs : List Char) :
    ∃ leaving, run (.inside .lineComment start) offset cs =
      .passage .lineComment start leaving ::
        run .code (offset + Text.byteSize (cs.takeWhile (· ≠ '\n')))
          (cs.drop (cs.takeWhile (· ≠ '\n')).length) := by
  induction cs generalizing offset with
  | nil => exact ⟨.input, rfl⟩
  | cons c cs ih =>
      by_cases hc : c = '\n'
      · subst hc
        refine ⟨.newline, ?_⟩
        rw [run_one rfl]
        have hcode := run_plain ['\n'] (List.forall_mem_singleton.mpr (by decide)) offset cs
        rw [List.singleton_append] at hcode
        rw [List.takeWhile_cons_of_neg (by decide)]
        show _ = Mark.passage .lineComment start .newline :: run .code offset ('\n' :: cs)
        rw [hcode]
        rfl
      · obtain ⟨leaving, hleaving⟩ := ih (offset + c.utf8Size)
        have hstep : step (.inside .lineComment start) offset c cs.head? =
            { mode := .inside .lineComment start } := by
          simp only [step, if_neg hc]
        refine ⟨leaving, ?_⟩
        rw [run_one (by rw [hstep]), hstep, List.takeWhile_cons_of_pos (by simpa using hc)]
        show run (.inside .lineComment start) _ cs = _
        rw [hleaving, List.length_cons, List.drop_succ_cons, Text.byteSize, Nat.add_assoc]

/-- A block comment is left behind the first closing marker, or else reaches to the end. -/
theorem run_blockComment (start offset k : Nat) (cs : List Char) :
    match Text.findFrom ['*', '/'] k cs with
    | some m => k ≤ m ∧ run (.inside .blockComment start) offset cs =
        .passage .blockComment start .closed ::
          run .code (offset + Text.byteSize (cs.take (m - k + 2))) (cs.drop (m - k + 2))
    | none => run (.inside .blockComment start) offset cs =
        [.passage .blockComment start .input] := by
  induction cs generalizing offset k with
  | nil => rfl
  | cons c cs ih =>
      by_cases hend : c = '*' ∧ cs.head? = some '/'
      · obtain ⟨rfl, hhead⟩ := hend
        obtain ⟨rest, rfl⟩ := List.head?_eq_some_iff.mp hhead
        have hfound : Text.findFrom ['*', '/'] k ('*' :: '/' :: rest) = some k := if_pos rfl
        rw [hfound]
        refine ⟨Nat.le_refl _, ?_⟩
        rw [run_two rfl, Nat.sub_self]
        rfl
      · have hstep : step (.inside .blockComment start) offset c cs.head? =
            { mode := .inside .blockComment start } := by
          simp only [step, if_neg hend]
        have hrun : run (.inside .blockComment start) offset (c :: cs) =
            run (.inside .blockComment start) (offset + c.utf8Size) cs := by
          rw [run_one (by rw [hstep]), hstep]
          rfl
        have hnot : ¬['*', '/'].isPrefixOf (c :: cs) = true := by
          intro hp
          obtain ⟨rest, hrest⟩ := List.isPrefixOf_iff_prefix.mp hp
          obtain ⟨rfl, rfl⟩ := List.cons.inj hrest
          exact hend ⟨rfl, rfl⟩
        rw [Text.findFrom, if_neg hnot, hrun]
        have := ih (offset + c.utf8Size) (k + 1)
        revert this
        cases Text.findFrom ['*', '/'] (k + 1) cs with
        | none => exact id
        | some m =>
            rintro ⟨hle, hm⟩
            have hsize : m - k + 2 = m - (k + 1) + 2 + 1 := by omega
            refine ⟨by omega, ?_⟩
            rw [hm, hsize, List.take_succ_cons, List.drop_succ_cons, Text.byteSize, Nat.add_assoc]

/-- How a literal is left whose body ends so. -/
def Leaving.ofBodyEnd : Lexeme.BodyEnd → Leaving
  | .delimiter => .closed
  | .line => .newline
  | .input => .input

/-- A literal is left where its body ends. -/
theorem run_literal {passage : Passage} {delimiter : Char} {start : Nat}
    (hstep : ∀ offset c next, step (.inside passage start) offset c next =
      literalStep passage delimiter start offset c) (n offset : Nat) (cs : List Char) :
    run (.inside passage start) offset cs =
      .passage passage start (.ofBodyEnd (Lexeme.quotedBody delimiter n cs).2) ::
        run .code
          (offset + Text.byteSize (cs.take ((Lexeme.quotedBody delimiter n cs).1 - n)))
          (cs.drop ((Lexeme.quotedBody delimiter n cs).1 - n)) := by
  fun_induction Lexeme.quotedBody delimiter n cs generalizing offset with
  | case1 n =>
      rw [Nat.sub_self]
      rfl
  | case2 n =>
      -- a backslash at the end has nothing to take along
      show run (.inside passage start) offset ['\\'] = _
      rw [run, hstep, Nat.add_sub_cancel_left]
      rfl
  | case3 n d cs ih =>
      have hmove : step (.inside passage start) offset '\\' (some d) =
          { mode := .inside passage start, both := true } := hstep _ _ _
      have hle := Lexeme.le_quotedBody delimiter (n + 2) cs
      have hsize : (Lexeme.quotedBody delimiter (n + 2) cs).1 - n =
          (Lexeme.quotedBody delimiter (n + 2) cs).1 - (n + 2) + 2 := by omega
      rw [run_two (by rw [hmove]), hmove]
      show run (.inside passage start) _ cs = _
      rw [ih, hsize, List.take_succ_cons, List.take_succ_cons, List.drop_succ_cons,
        List.drop_succ_cons, Text.byteSize, Text.byteSize]
      simp only [Nat.add_assoc]
  | case4 n cs hnil hcons =>
      have hmove : step (.inside passage start) offset '\n' cs.head? =
          { mode := .code, marks := .passage passage start .newline :: inCode '\n' offset } :=
        hstep _ _ _
      have hcode := run_plain ['\n'] (List.forall_mem_singleton.mpr (by decide)) offset cs
      rw [run_one (by rw [hmove]), hmove, Nat.sub_self]
      show _ = Mark.passage passage start .newline :: run .code offset (['\n'] ++ cs)
      rw [hcode]
      rfl
  | case5 n cs hnil hcons hline =>
      have hmove : step (.inside passage start) offset delimiter cs.head? =
          { mode := .code, marks := [.passage passage start .closed] } := by
        rw [hstep, literalStep, if_neg (Lexeme.ne_backslash hnil hcons), if_neg hline, if_pos rfl]
      rw [run_one (by rw [hmove]), hmove, Nat.add_sub_cancel_left]
      rfl
  | case6 n c cs hnil hcons hline hdelimiter ih =>
      have hmove : step (.inside passage start) offset c cs.head? =
          { mode := .inside passage start } := by
        rw [hstep, literalStep, if_neg (Lexeme.ne_backslash hnil hcons), if_neg hline,
          if_neg hdelimiter]
      have hle := Lexeme.le_quotedBody delimiter (n + 1) cs
      have hsize : (Lexeme.quotedBody delimiter (n + 1) cs).1 - n =
          (Lexeme.quotedBody delimiter (n + 1) cs).1 - (n + 1) + 1 := by omega
      rw [run_one (by rw [hmove]), hmove]
      show run (.inside passage start) _ cs = _
      rw [ih, hsize, List.take_succ_cons, List.drop_succ_cons, Text.byteSize, Nat.add_assoc]

/-! ## Tokens and marks -/

/-- The kind of the tokens that a passage is read as. -/
def Passage.kind : Passage → TokenKind
  | .lineComment => .lineComment
  | .blockComment => .blockComment
  | .string => .stringLiteral
  | .char => .charLiteral

/-- The kinds of tokens that the automaton marks. -/
def isShown : TokenKind → Bool
  | .punctuation c => isMarked c
  | .lineComment | .blockComment | .stringLiteral | .charLiteral => true
  | _ => false

/-- The token stands where the mark says, and is of its kind. It is marked as not terminated if the
passage was left by a bare line feed or by the end of the input, a line comment never. -/
def Shows (t : Token) : Mark → Prop
  | .punctuation c offset => t.kind = .punctuation c ∧ t.start = offset
  | .passage passage start leaving =>
    t.kind = passage.kind ∧ t.start = start ∧
      (t.terminated = false ↔ passage ≠ .lineComment ∧ leaving ≠ .closed)

/-- Over the lexeme at the head of the text the automaton makes the marks `new`, and is back in
code behind it; a token of that lexeme shows these marks. -/
structure Reads (cs : List Char) (x : Lexeme) (offset : Nat) (new : List Mark) : Prop where
  run : run .code offset cs =
    new ++ run .code (offset + Text.byteSize (cs.take x.size)) (cs.drop x.size)
  shows : ∀ t : Token, t.kind = x.kind → t.start = offset → t.terminated = x.terminated →
    List.Forall₂ Shows ([t].filter fun t => isShown t.kind) new

/-- A lexeme of plain characters makes no mark. -/
theorem Reads.of_plain {cs : List Char} {x : Lexeme} (offset : Nat)
    (hp : ∀ c ∈ cs.take x.size, IsPlain c) (hk : isShown x.kind = false) :
    Reads cs x offset [] where
  run := by
    conv_lhs => rw [← List.take_append_drop x.size cs]
    rw [run_plain _ hp, List.nil_append]
  shows := by
    intro t ht _ _
    rw [List.filter_cons_of_neg (by simp [ht, hk])]
    exact .nil

/-- A lexeme that is a passage makes one mark. -/
theorem Reads.of_passage {cs : List Char} {x : Lexeme} {offset : Nat} (passage : Passage)
    (leaving : Leaving) (hk : x.kind = passage.kind)
    (ht : x.terminated = false ↔ passage ≠ .lineComment ∧ leaving ≠ .closed)
    (hrun : Automaton.run .code offset cs = .passage passage offset leaving ::
      Automaton.run .code (offset + Text.byteSize (cs.take x.size)) (cs.drop x.size)) :
    Reads cs x offset [.passage passage offset leaving] where
  run := hrun
  shows := by
    intro t hkind hstart hterminated
    have hshown : isShown t.kind = true := by
      rw [hkind, hk]
      cases passage <;> rfl
    have hfilter : [t].filter (fun t => isShown t.kind) = [t] := by simp [hshown]
    rw [hfilter]
    exact .cons ⟨hkind.trans hk, hstart, by rw [hterminated]; exact ht⟩ .nil

/-- Characters of a class that leaves out the special ones are plain. -/
theorem isPlain_of_class {p : Char → Bool}
    (hp : ['/', '"', '\'', '{', '}', '(', ')', ';'].any p = false) {c : Char}
    (hc : p c = true) : IsPlain c := by
  have hne : ∀ d ∈ ['/', '"', '\'', '{', '}', '(', ')', ';'], c ≠ d := by
    rintro d hd rfl
    exact List.any_eq_false.mp hp _ hd hc
  refine ⟨hne _ (by decide), hne _ (by decide), hne _ (by decide), ?_⟩
  rw [isMarked, Bool.eq_false_iff]
  intro hcontains
  have hmem : c ∈ ['{', '}', '(', ')', ';'] := List.contains_iff_mem.mp hcontains
  exact hne c (List.mem_append_right ['/', '"', '\''] hmem) rfl

theorem take_takeWhile_class {p : Char → Bool} {n : Nat} {cs : List Char}
    (hn : n ≤ (cs.takeWhile p).length) : ∀ c ∈ cs.take n, p c = true := by
  intro c hc
  have hbefore : cs.take n <+: cs.takeWhile p :=
    List.prefix_of_prefix_length_le (List.take_prefix n cs) (List.takeWhile_prefix p)
      (Nat.le_trans (List.length_take_le n cs) hn)
  exact List.mem_takeWhile_imp (hbefore.subset hc)

/-! ## The lexemes of Java -/

/-- Whether a marker of two characters stands at the head of a text. -/
theorem startsWith_pair {a b : Char} {marker : String} (hm : marker.toList = [a, b]) (c : Char)
    (rest : List Char) :
    Lexeme.startsWith (c :: rest) marker = decide (c = a ∧ rest.head? = some b) := by
  rw [Lexeme.startsWith, hm]
  cases rest with
  | nil => simp [List.isPrefixOf]
  | cons d rest =>
      simp only [List.isPrefixOf, List.head?_cons, Bool.and_true, Option.some.injEq,
        Bool.decide_and, beq_eq_decide, eq_comm (a := a), eq_comm (a := b)]

open Lexeme in
/-- What stands at the head of a text, with the markers and delimiters of Java written out. -/
theorem atHead_java (c : Char) (rest : List Char) :
    atHead (.ofProfile .java) (c :: rest) =
      if c = '\n' then ⟨.newline, 1, true⟩
      else if c = '\r' ∧ rest.head? = some '\n' then ⟨.newline, 2, true⟩
      else if c = '/' ∧ rest.head? = some '/' then lineComment (c :: rest)
      else if c = '/' ∧ rest.head? = some '*' then blockComment "/*" "*/" (c :: rest)
      else if Text.isBlank c then blank (c :: rest)
      else if c = '"' then quoted .stringLiteral c (c :: rest)
      else if c = '\'' then quoted .charLiteral c (c :: rest)
      else if isWordStart c then word (.ofProfile .java) (c :: rest)
      else if c.isDigit then number (c :: rest)
      else ⟨.punctuation c, 1, true⟩ := by
  have hline : (Grammar.ofProfile .java).lineComment = some "//" := rfl
  have hblock : (Grammar.ofProfile .java).blockComment = some ("/*", "*/") := rfl
  have hverbatim : (Grammar.ofProfile .java).verbatimPrefix? (c :: rest) = none := by
    simp [Grammar.verbatimPrefix?, Grammar.ofProfile, Profile.java]
  have hstring : (Grammar.ofProfile .java).isStringDelimiter c = decide (c = '"') := by
    show ['"'].contains c = _
    simp
  have hchar : (Grammar.ofProfile .java).isCharDelimiter c = decide (c = '\'') := by
    show ['\''].contains c = _
    simp
  have hslashes : startsWith (c :: rest) "//" = decide (c = '/' ∧ rest.head? = some '/') :=
    startsWith_pair (by decide) c rest
  have hstar : startsWith (c :: rest) "/*" = decide (c = '/' ∧ rest.head? = some '*') :=
    startsWith_pair (by decide) c rest
  simp only [atHead, hline, hblock, hverbatim, hstring, hchar, Option.any_some, Option.filter_some,
    hslashes, hstar, decide_eq_true_eq]
  by_cases h : c = '/' ∧ rest.head? = some '*'
  · simp only [if_pos h]
  · simp only [if_neg h]

/-- A line comment makes one mark. -/
theorem reads_lineComment (offset : Nat) (rest : List Char) :
    ∃ new, Reads ('/' :: '/' :: rest) (Lexeme.lineComment ('/' :: '/' :: rest)) offset new := by
  obtain ⟨leaving, hleaving⟩ :=
    run_lineComment offset (offset + '/'.utf8Size + '/'.utf8Size) rest
  refine ⟨_, .of_passage .lineComment leaving rfl ?_ ?_⟩
  · simp [Lexeme.lineComment]
  · -- the markers are no line feeds, so the comment ends where the text behind them ends its line
    have hn : (('/' :: '/' :: rest).takeWhile (· ≠ '\n')).length =
        (rest.takeWhile (· ≠ '\n')).length + 2 := by
      rw [List.takeWhile_cons_of_pos (by decide), List.takeWhile_cons_of_pos (by decide)]
      rfl
    have hle := (List.takeWhile_prefix (l := rest) (· ≠ '\n')).length_le
    have htake := Text.take_length_takeWhile (· ≠ '\n') rest
    rw [Lexeme.lineComment, hn, run_sizeBeforeReturn (by simp only [List.length_cons]; omega),
      run_two rfl]
    show run (.inside .lineComment offset) _ rest = _
    rw [hleaving, List.take_succ_cons, List.take_succ_cons, List.drop_succ_cons,
      List.drop_succ_cons, htake, Text.byteSize, Text.byteSize]
    simp only [Nat.add_assoc]

/-- A block comment makes one mark. -/
theorem reads_blockComment (offset : Nat) (rest : List Char) :
    ∃ new, Reads ('/' :: '*' :: rest) (Lexeme.blockComment "/*" "*/" ('/' :: '*' :: rest))
      offset new := by
  have hlen : "/*".length = 2 ∧ "*/".length = 2 ∧ "*/".toList = ['*', '/'] := by decide
  have hbody := run_blockComment offset (offset + 1 + 1) 0 rest
  have hopening : run .code offset ('/' :: '*' :: rest) =
      run (.inside .blockComment offset) (offset + 1 + 1) rest := run_two rfl
  rw [Lexeme.blockComment, hlen.1, hlen.2.1, hlen.2.2, Text.find?]
  show ∃ new, Reads _ (match Text.findFrom ['*', '/'] 0 rest with
    | some n => _
    | none => _) offset new
  revert hbody
  cases Text.findFrom ['*', '/'] 0 rest with
  | none =>
      intro hbody
      refine ⟨_, .of_passage .blockComment .input rfl (by simp) ?_⟩
      rw [hopening, hbody, List.drop_length, run_nil]
      rfl
  | some n =>
      rintro ⟨-, hbody⟩
      refine ⟨_, .of_passage .blockComment .closed rfl (by simp) ?_⟩
      have hsize : 2 + n + 2 = n - 0 + 2 + 1 + 1 := by omega
      show _ = _ :: run .code (offset + Text.byteSize (List.take (2 + n + 2) _))
        (List.drop (2 + n + 2) _)
      rw [hopening, hbody, hsize, List.take_succ_cons, List.take_succ_cons, List.drop_succ_cons,
        List.drop_succ_cons, Text.byteSize, Text.byteSize]
      simp only [Nat.add_assoc]
      rfl

/-- A literal makes one mark. -/
theorem reads_quoted (passage : Passage) {delimiter : Char} (hk : passage ≠ .lineComment)
    (hopen : ∀ offset next, step .code offset delimiter next = { mode := .inside passage offset })
    (hstep : ∀ start offset c next, step (.inside passage start) offset c next =
      literalStep passage delimiter start offset c) (offset : Nat) (rest : List Char) :
    ∃ new, Reads (delimiter :: rest)
      (Lexeme.quoted passage.kind delimiter (delimiter :: rest)) offset new := by
  have hbody := run_literal (hstep offset) 1 (offset + delimiter.utf8Size) rest
  have hopening : run .code offset (delimiter :: rest) =
      run (.inside passage offset) (offset + delimiter.utf8Size) rest := by
    rw [run_one (by rw [hopen]), hopen]
    rfl
  have hbounds := (Lexeme.quotedBody_append delimiter 1 rest []).1
  have hpos := Lexeme.le_quotedBody delimiter 1 rest
  rw [Lexeme.quoted, List.drop_succ_cons, List.drop_zero]
  revert hbody hbounds hpos
  obtain ⟨n, bodyEnd⟩ := Lexeme.quotedBody delimiter 1 rest
  intro hbody hbounds hpos
  -- the body is counted from 1, behind the opening delimiter
  obtain ⟨m, rfl⟩ : ∃ m, n = m + 1 := ⟨n - 1, by simp only at hpos; omega⟩
  have hwhole : run .code offset (delimiter :: rest) =
      .passage passage offset (.ofBodyEnd bodyEnd) ::
        run .code (offset + Text.byteSize ((delimiter :: rest).take (m + 1)))
          ((delimiter :: rest).drop (m + 1)) := by
    rw [hopening, hbody, List.take_succ_cons, List.drop_succ_cons, Text.byteSize,
      Nat.add_sub_cancel, Nat.add_assoc]
  cases bodyEnd with
  | delimiter => exact ⟨_, .of_passage passage _ rfl (by simp [Leaving.ofBodyEnd]) hwhole⟩
  | input => exact ⟨_, .of_passage passage _ rfl (by simp [Leaving.ofBodyEnd, hk]) hwhole⟩
  | line =>
      refine ⟨_, .of_passage passage .newline rfl (by simp [hk]) ?_⟩
      have hle : m + 1 ≤ (delimiter :: rest).length := by
        simp only [List.length_cons]
        simp only at hbounds
        omega
      rw [run_sizeBeforeReturn hle]
      exact hwhole

open Lexeme in
/-- Over each lexeme of Java the automaton makes the marks that a token of it shows. -/
theorem reads_atHead (offset : Nat) (c : Char) (rest : List Char) :
    ∃ new, Reads (c :: rest) (atHead (.ofProfile .java) (c :: rest)) offset new := by
  rw [atHead_java]
  split
  · next hc =>
    subst hc
    exact ⟨[], .of_plain offset (by simp; decide) rfl⟩
  split
  · next h =>
    obtain ⟨rfl, hrest⟩ := h
    obtain ⟨rest, rfl⟩ := List.head?_eq_some_iff.mp hrest
    exact ⟨[], .of_plain offset (by simp; decide) rfl⟩
  split
  · next h =>
    obtain ⟨rfl, hrest⟩ := h
    obtain ⟨rest, rfl⟩ := List.head?_eq_some_iff.mp hrest
    exact reads_lineComment offset rest
  split
  · next h =>
    obtain ⟨rfl, hrest⟩ := h
    obtain ⟨rest, rfl⟩ := List.head?_eq_some_iff.mp hrest
    exact reads_blockComment offset rest
  split
  · -- white space, perhaps without the carriage return at its end
    refine ⟨[], .of_plain offset (fun d hd => ?_) rfl⟩
    have hn : (blank (c :: rest)).size ≤
        ((c :: rest).takeWhile fun c => Text.isBlank c && c ≠ '\n').length := by
      simp only [blank]
      split
      · exact sizeBeforeReturn_le _ _
      · exact Nat.le_refl _
    exact isPlain_of_class (p := fun c => Text.isBlank c && c ≠ '\n') (by decide)
      (take_takeWhile_class hn d hd)
  split
  · next hc =>
    subst hc
    exact reads_quoted .string (by decide) (fun _ _ => rfl) (fun _ _ _ _ => rfl)
      offset rest
  split
  · next hc =>
    subst hc
    exact reads_quoted .char (by decide) (fun _ _ => rfl) (fun _ _ _ _ => rfl)
      offset rest
  split
  · refine ⟨[], .of_plain offset (fun d hd => ?_) ?_⟩
    · exact isPlain_of_class (by decide)
        (take_takeWhile_class (p := isWordChar) (Nat.le_refl _) d hd)
    · rw [word]
      split <;> rfl
  split
  · refine ⟨[], .of_plain offset (fun d hd => ?_) rfl⟩
    exact isPlain_of_class (by decide)
      (take_takeWhile_class (p := isNumberChar) (Nat.le_refl _) d hd)
  · -- a character by itself
    next hline hblock _ hstring hchar _ _ =>
    refine ⟨inCode c offset, ?_, ?_⟩
    · exact run_code hline hblock hstring hchar
    · intro t hk hstart _
      have hshown : isShown t.kind = isMarked c := congrArg isShown hk
      cases hm : isMarked c with
      | true =>
          have hfilter : [t].filter (fun t => isShown t.kind) = [t] := by simp [hshown, hm]
          rw [hfilter, inCode, if_pos hm]
          exact .cons ⟨hk, hstart⟩ .nil
      | false =>
          have hfilter : [t].filter (fun t => isShown t.kind) = [] := by simp [hshown, hm]
          rw [hfilter, inCode, hm, if_neg Bool.false_ne_true]
          exact .nil

/-! ## The stream -/

/-- The tokens from a lexer on show the marks from its place on, in code. -/
theorem tokens_show (l : Lexer) (h : l.finished = true → l.rest = []) :
    List.Forall₂ Shows ((l.tokens (.ofProfile .java)).filter fun t => isShown t.kind)
      (run .code l.cursor.offset l.rest) := by
  have hg : (Grammar.ofProfile .java).MarkersNonempty :=
    (builtins_compiled .java (by decide)).markersNonempty
  revert h
  refine Lexer.tokens_induction (g := .ofProfile .java) (motive := fun l ts =>
    (l.finished = true → l.rest = []) →
      List.Forall₂ Shows (ts.filter fun t => isShown t.kind) (run .code l.cursor.offset l.rest))
    ?finished ?last ?more l
  case finished =>
    intro l hf h
    rw [h hf]
    exact .nil
  case last =>
    intro l hf hb _
    -- the lexer does not get on, so it stands at the end
    have hnil : l.rest = [] := by
      by_contra hne
      have hline : (Grammar.ofProfile .java).lineComment ≠ some "\r" := by decide
      rw [Lexer.isBefore_following hg hne fun hm => absurd hm hline] at hb
      cases hb
    have hkind : (l.headToken (.ofProfile .java)).kind = .endOfInput :=
      Lexer.headToken_endOfInput_iff.mpr hnil
    rw [hnil, List.filter_cons_of_neg (by rw [hkind]; decide)]
    exact .nil
  case more =>
    intro l hf hb ih _
    have hfinished : (l.following (.ofProfile .java)).finished = true →
        (l.following (.ofProfile .java)).rest = [] := by
      intro hfin
      rw [Lexer.following, Lexer.following_finished_iff.mp hfin, List.drop_nil]
    replace ih := ih hfinished
    cases hrest : l.rest with
    | nil =>
        have hkind : (l.headToken (.ofProfile .java)).kind = .endOfInput :=
          Lexer.headToken_endOfInput_iff.mpr hrest
        have hfin : (l.following (.ofProfile .java)).finished = true :=
          Lexer.following_finished_iff.mpr hrest
        rw [List.filter_cons_of_neg (by rw [hkind]; decide), Lexer.tokens_finished hfin]
        exact .nil
    | cons c rest =>
        obtain ⟨new, hreads⟩ := reads_atHead l.cursor.offset c rest
        rw [← hrest] at hreads
        have hrun := hreads.run
        rw [← Lexer.headText, ← Lexer.following_offset] at hrun
        rw [← hrest, hrun, ← List.singleton_append, List.filter_append]
        exact List.rel_append (hreads.shows _ rfl rfl rfl) ih

end Automaton

/-- **The lexer of Java is the character automaton**: the braces, parentheses and semicolons that it
reads as punctuation are exactly those that the automaton meets in code, at the same offsets, and
its comments and literals are the passages of the automaton. A literal or block comment is marked as
not terminated if and only if its passage was left by a bare line feed or by the input's end. -/
theorem tokens_show_marks (source : List Char) :
    List.Forall₂ Automaton.Shows
      ((tokensOf (.ofProfile .java) source).filter fun t => Automaton.isShown t.kind)
      (Automaton.marks source) :=
  Automaton.tokens_show (Lexer.ofSource source) fun h => by cases h

/-- A brace in a literal or a comment is not marked, and an escaped quote does not close. -/
example : Automaton.marks "f('\\'', \"\x7b\") \x7b // \x7d".toList =
    [.punctuation '(' 1, .passage .char 2 .closed, .passage .string 8 .closed,
      .punctuation ')' 11, .punctuation '{' 13, .passage .lineComment 15 .input] := by
  decide +kernel

end DeclTags
