import DeclTags.Proofs.Accounting
import DeclTags.Proofs.Blocks
import DeclTags.Proofs.Candidates
import DeclTags.Proofs.Retelling
import DeclTags.Proofs.Shifts
import DeclTags.Proofs.Truncation

set_option autoImplicit false

/-! # Complete chunks

A source is a complete chunk if it ends with a semicolon or a closing brace and leaves nothing open.
Behind such a chunk a scan is where it began: no scope is open, no candidate is held or suspended,
and no comment waits for a declaration (`Scan.recognizer_eq_init`). So the scan of a chunk with
another source behind it finds what the scans of the two find, one after the other, the second one
in the places behind the chunk (`scan_chunk`).

That the second source is scanned behind the chunk as by itself is an instance of what is known of
relocated tokens: they are moved by the size of the chunk.
-/

namespace DeclTags

/-! ## What is found behind a text -/

/-- Behind another text a slice of a text is the same slice. -/
theorem Text.slice_behind {source : List Char} (before : List Char) {start stop : Nat}
    (hstart : IsBoundary source start) (hstop : IsBoundary source stop) :
    slice (start + byteSize before) (stop + byteSize before) (String.ofList (before ++ source)) =
      slice start stop (String.ofList source) := by
  obtain ⟨front, rest, hs, rfl⟩ := hstart
  obtain ⟨front', after, hs', rfl⟩ := hstop
  rcases Nat.lt_or_ge (byteSize front) (byteSize front') with hlt | hge
  · obtain ⟨part, rfl⟩ := exists_part_of_lt hs hs' hlt
    have hpart := slice_part front part after
    have hbehind := slice_part (before ++ front) part after
    have hwhole : before ++ source = before ++ front ++ part ++ after := by
      rw [hs', List.append_assoc, List.append_assoc, List.append_assoc]
    have hsum : byteSize front + byteSize part + byteSize before =
        byteSize before + byteSize front + byteSize part := by omega
    rw [byteSize_append] at hbehind
    rw [hwhole, hs', byteSize_append, hpart, hsum, Nat.add_comm (byteSize front), hbehind]
  · rw [slice_of_le hge, slice_of_le (Nat.add_le_add_right hge _)]

/-- The span when the text `before` is put in front of the source. -/
def Span.behind (before : List Char) (s : Span) : Span where
  startByte := s.startByte + Text.byteSize before
  endByte := s.endByte + Text.byteSize before
  line := s.line + before.count '\n'
  column := if s.line = 1 then s.column + (Text.lastLine before).length else s.column

/-- The symbol when the text `before` is put in front of the source. -/
def Symbol.behind (before : List Char) (x : Symbol) : Symbol :=
  { x with
    startLine := x.startLine + before.count '\n'
    span := x.span.behind before }

/-- The second diagnostic is the first one `lines` lines further down; where the message names a
line, that line is so, too. -/
inductive Diagnostic.Moved (lines : Nat) : Diagnostic → Diagnostic → Prop where
  | plain {kind : DiagnosticKind} (hkind : kind ≠ .unbalancedBraces) (line : Nat)
      (message : String) :
      Moved lines (.ofKind kind line message) (.ofKind kind (line + lines) message)
  | unmatched (line : Nat) :
      Moved lines (.ofKind .unbalancedBraces line (unmatchedMessage line))
        (.ofKind .unbalancedBraces (line + lines) (unmatchedMessage (line + lines)))
  | openScopes (line count innermost : Nat) :
      Moved lines (.ofKind .unbalancedBraces line (Scan.openScopesMessage count innermost))
        (.ofKind .unbalancedBraces (line + lines)
          (Scan.openScopesMessage count (innermost + lines)))

/-- What is reported only when the input ends: open scopes, or an open parenthesis. -/
def Diagnostic.IsEndOfInput (d : Diagnostic) : Prop :=
  d.kind = .unexpectedEnd ∨
    d.kind = .unbalancedBraces ∧ ∃ count line, d.message = Scan.openScopesMessage count line

/-- The tokens of a source are moved to the places behind a text. -/
def Relocation.behind (before : List Char) : Relocation where
  map := Token.behind before
  lines m n := n = m + before.count '\n'
  kind_map _ := rfl
  terminated_map _ := rfl
  text_map _ _ := rfl
  lines_map _ := rfl

namespace Relocation

variable (before : List Char)

theorem behind_keepsAdjacency (run : List Token) : (behind before).KeepsAdjacency run :=
  List.pairwise_of_forall fun _ _ => Nat.add_right_cancel_iff

theorem behind_keepsTexts : (behind before).KeepsTexts := fun _ => rfl

/-- Behind a text the slices of a source are the same. -/
theorem behind_keepsSlices {source : List Char} {run : List Token}
    (h : ∀ t ∈ run, t.IsPart source) :
    (behind before).KeepsSlices (String.ofList source) (String.ofList (before ++ source)) run := by
  intro o ho c hc
  exact Text.slice_behind before (h o ho).2 (h c hc).1

end Relocation

theorem Symbol.Retold.eq_behind {before source : List Char} {run : List Token} {a b : Symbol}
    (hs : ∀ t ∈ run, t.IsPart source)
    (h : a.Retold (.behind before) (String.ofList source) (String.ofList (before ++ source)) run
      b) :
    b = a.behind before := by
  obtain ⟨n, hspan, hspan'⟩ := h.span
  have htext := h.parameterText (Relocation.behind_keepsSlices before hs)
  have hline : b.startLine = a.startLine + before.count '\n' := h.startLine
  have hplace : b.span = a.span.behind before := by rw [hspan, hspan']; rfl
  calc b = ⟨b.name, b.kind, b.modifiers, b.parameterText, b.startLine, b.span, b.path,
        b.docComment⟩ := rfl
    _ = a.behind before := by
        rw [h.name, h.kind, h.modifiers, htext, hline, hplace, h.path, h.docComment,
          Symbol.behind]

theorem Diagnostic.Retold.moved {before : List Char} {a b : Diagnostic}
    (h : a.Retold (.behind before) b) : a.Moved (before.count '\n') b := by
  cases h with
  | plain hkind hline hmessage =>
      rw [hline, hmessage (Relocation.behind_keepsTexts before)]
      exact .plain hkind _ _
  | unmatched hline =>
      rw [hline]
      exact .unmatched _
  | openScopes count hline hinner =>
      rw [hline, hinner]
      exact .openScopes _ _ _

/-! ## Behind a complete chunk -/

namespace Scan

variable {g : Grammar} {source : String}

/-- **Behind a complete chunk the recognizer is as at the beginning.** -/
theorem recognizer_eq_init {ts : List Token} {t : Token}
    (ht : t.isPunct '}' = true ∨ t.isPunct ';' = true)
    (hscopes : (run g source (ts ++ [t]) {}).tracker.scopes = [])
    (hparen : (run g source (ts ++ [t]) {}).recognizer.inParenGroup = false) :
    (run g source (ts ++ [t]) {}).recognizer = {} := by
  have hsuspended : (run g source (ts ++ [t]) {}).recognizer.suspended = [] :=
    (Aligned.init.run (ts ++ [t])).suspended_eq_nil hscopes
  rcases ht with hc | hsemicolon
  · rcases run_closing_cases g source ts hc with ⟨-, hr⟩ | ⟨before, o, inner, -, -, -, hr⟩
    · exact hr
    · rw [hr, Recognizer.afterBlock] at hparen hsuspended ⊢
      by_cases hopen : 0 < (run g source before {}).recognizer.candidate.parenDepth
      · -- what is taken up again is in parentheses
        simp [Recognizer.inParenGroup, hopen] at hparen
      · rw [if_neg hopen] at hsuspended ⊢
        exact congrArg Recognizer.boundary hsuspended
  · rw [run_append, run_cons, run_nil, feed_recognizer_of_semicolon hsemicolon,
      Recognizer.semicolon] at hparen hsuspended ⊢
    split at hparen
    · next hin =>
      -- in parentheses a semicolon is a token like any other, and closes none
      have hdepth : Candidate.depthAfter (run g source ts {}).recognizer.candidate.parenDepth t =
          (run g source ts {}).recognizer.candidate.parenDepth := by
        simp [Candidate.depthAfter, Token.not_isPunct_of_ne hsemicolon]
      rw [Recognizer.inParenGroup, Recognizer.observe_parenDepth, hdepth] at hparen
      rw [Recognizer.inParenGroup, hparen] at hin
      cases hin
    · next hin =>
      rw [if_neg hin] at hsuspended ⊢
      exact congrArg Recognizer.boundary hsuspended

/-- A scan that reports nothing at the end of the input has nothing open there. -/
theorem closed_of_no_end_report {s : Scan}
    (h : ∀ d ∈ s.finish.diagnostics.toList, ¬d.IsEndOfInput) :
    s.tracker.scopes = [] ∧ s.recognizer.inParenGroup = false ∧ s.finish = s := by
  have hlast : ∀ (kind : DiagnosticKind) (line : Nat) (message : String),
      Diagnostic.ofKind kind line message ∈ (s.report kind line message).diagnostics.toList := by
    intro kind line message
    rw [report_diagnostics]
    exact List.mem_append_right _ (List.mem_singleton_self _)
  unfold finish ScopeTracker.current? at h ⊢
  cases hs : s.tracker.scopes with
  | cons innermost outer =>
      rw [hs] at h
      exact absurd (Or.inr ⟨rfl, _, _, rfl⟩) (h _ (hlast _ _ _))
  | nil =>
      rw [hs] at h
      cases hp : s.recognizer.inParenGroup with
      | true =>
          rw [hp] at h
          exact absurd (Or.inl rfl) (h _ (hlast _ _ _))
      | false => exact ⟨rfl, rfl, rfl⟩

end Scan

/-! ## Chunks -/

/-- The grammars of the languages that are built in are those of profiles without fault. -/
theorem builtins_compiled : ∀ p ∈ Profile.builtins, (Grammar.ofProfile p).Compiled := by
  have hfault : ∀ p ∈ Profile.builtins, p.fault? = none := by decide +kernel
  intro p hp
  refine ⟨p, ?_⟩
  rw [Grammar.compile, hfault p hp]

/-- What the theorem on chunks asks of a grammar. -/
theorem builtins_sound {g : Grammar}
    (h : g ∈ Profile.builtins.map Grammar.ofProfile ∨
      g.Compiled ∧ g.MarkersInert ∧ g.lineComment ≠ some "\r") :
    g.Compiled ∧ g.MarkersInert ∧ g.lineComment ≠ some "\r" := by
  rcases h with h | h
  · obtain ⟨p, hp, rfl⟩ := List.mem_map.mp h
    have hline : ∀ p ∈ Profile.builtins, (Grammar.ofProfile p).lineComment ≠ some "\r" := by
      decide
    exact ⟨builtins_compiled p hp, builtins_markersInert p hp, hline p hp⟩
  · exact h

/-- From a place where nothing is open, the tokens of a source behind a text are scanned like those
of the source by itself. -/
theorem Scan.follows_behind {g : Grammar} (hg : g.Compiled) (hline : g.lineComment ≠ some "\r")
    (before source : List Char) {m : Scan} (hr : m.recognizer = {}) (hs : m.tracker.scopes = []) :
    Follows (.behind before) (String.ofList source) (String.ofList (before ++ source))
      (tokensOf g source) m (run g (String.ofList source) (tokensOf g source) {}).finish
      (run g (String.ofList (before ++ source))
        ((tokensOf g source).map (Token.behind before)) m).finish := by
  have hinit : Follows (.behind before) (String.ofList source) (String.ofList (before ++ source))
      (tokensOf g source) m {} m := .init hr hs
  have hrun : Follows (.behind before) (String.ofList source) (String.ofList (before ++ source))
      (tokensOf g source) m (run g (String.ofList source) (tokensOf g source) {})
      (run g (String.ofList (before ++ source))
        ((tokensOf g source).map (Token.behind before)) m) :=
    hinit.run (Relocation.behind_keepsAdjacency before _) (List.Sublist.refl _)
  refine hrun.finish ?_
  -- both end on the line of their last token
  obtain ⟨eof, hmem, heof⟩ : ∃ eof ∈ tokensOf g source, eof.kind = .endOfInput :=
    tokensOf_ends hg fun h => absurd h hline
  obtain ⟨init, htokens, -⟩ := Lexer.exists_concat_of_endOfInput g _ eof hmem heof
  have htokens : tokensOf g source = init ++ [eof] := htokens
  have hmoved : (Token.behind before eof).kind = .endOfInput := heof
  rw [htokens, List.map_append, List.map_singleton, run_endLine heof, run_endLine hmoved]
  exact (Relocation.behind before).lines_map eof

/-- Behind a complete chunk, the scan of the chunk and that of the chunk with another source behind
it are at the same place, nothing is open there, and everything in the chunk is found. -/
theorem Scan.exists_behind_chunk {g : Grammar} (hg : g.MarkersInert) {chunk : List Char} {t : Token}
    (ht : t ∈ tokensOf g chunk) (hkind : t.isPunct '}' = true ∨ t.isPunct ';' = true)
    (hend : t.stop = Text.byteSize chunk)
    (hcomplete : ∀ d ∈ (scan g chunk).diagnostics, ¬d.IsEndOfInput) (source : List Char) :
    ∃ m : Scan, m.recognizer = {} ∧ m.tracker.scopes = [] ∧ scan g chunk = m.result ∧
      run g (String.ofList (chunk ++ source)) (tokensOf g (chunk ++ source)) {} =
        run g (String.ofList (chunk ++ source))
          ((tokensOf g source).map (Token.behind chunk)) m := by
  have hs : t.isStructural = true := by
    rcases hkind with h | h <;> simp [Token.isStructural, Token.isBrace, h]
  obtain ⟨init, eof, hchunk, heof, hwhole⟩ := tokensOf_chunk hg chunk source ht hs hend
  generalize hm : run g (String.ofList chunk) (init ++ [t]) {} = m
  -- up to there the tokens and the slices between them are those of the chunk
  have hm' : run g (String.ofList (chunk ++ source)) (init ++ [t]) {} = m := by
    have hparts : ∀ u ∈ init ++ [t], u.IsPart chunk := fun u hu => by
      refine tokensOf_isPart g chunk u ?_
      rw [hchunk, List.append_cons]
      exact List.mem_append_left _ hu
    have hslices : SameSlices (String.ofList chunk) (String.ofList (chunk ++ source))
        (({} : Scan).recognizer.held ++ (init ++ [t])) := sameSlices_append source hparts
    exact (run_congr hslices).1.symm.trans hm
  -- the end of the input finds nothing open
  have hscan : scan g chunk = ({ m with endLine := eof.line } : Scan).finish.result := by
    have hrun : run g (String.ofList chunk) (tokensOf g chunk) {} =
        { m with endLine := eof.line } := by
      rw [hchunk, List.append_cons, run_append, hm, run_cons, run_nil, feed_endOfInput heof]
    rw [← hrun]
    exact scan_eq g chunk
  rw [hscan] at hcomplete
  obtain ⟨hscopes, hparen, hfinish⟩ := closed_of_no_end_report hcomplete
  have hrecognizer : m.recognizer = {} := by
    rw [← hm]
    refine recognizer_eq_init hkind ?_ ?_
    · rw [hm]
      exact hscopes
    · rw [hm]
      exact hparen
  refine ⟨m, hrecognizer, hscopes, ?_, ?_⟩
  · rw [hscan, hfinish]
    rfl
  · rw [hwhole, List.append_cons, run_append, hm']

/-- **Scanning goes chunk by chunk.** For the languages that are built in, and for every other one
without a brace or semicolon in a marker in which no line comment begins with a lone carriage
return: if a source ends with the token of a closing brace or semicolon, and nothing is reported at
its end, then with another source behind it the symbols are its own and those of the other source
in their places behind it; the diagnostics are its own and those of the other source further down;
and the counts are those of both, one scan after the other. -/
theorem scan_chunk {g : Grammar}
    (hg : g ∈ Profile.builtins.map Grammar.ofProfile ∨
      g.Compiled ∧ g.MarkersInert ∧ g.lineComment ≠ some "\r")
    {chunk : List Char} {t : Token} (ht : t ∈ tokensOf g chunk)
    (hkind : t.isPunct '}' = true ∨ t.isPunct ';' = true)
    (hend : t.stop = Text.byteSize chunk)
    (hcomplete : ∀ d ∈ (scan g chunk).diagnostics, ¬d.IsEndOfInput) (source : List Char) :
    (scan g (chunk ++ source)).symbols =
      (scan g chunk).symbols ++ (scan g source).symbols.map (Symbol.behind chunk) ∧
    (∃ moved, (scan g (chunk ++ source)).diagnostics = (scan g chunk).diagnostics ++ moved ∧
      List.Forall₂ (Diagnostic.Moved (chunk.count '\n')) (scan g source).diagnostics moved) ∧
    (scan g (chunk ++ source)).stats = (scan g chunk).stats.join (scan g source).stats := by
  obtain ⟨hcompiled, hinert, hline⟩ := builtins_sound hg
  obtain ⟨m, hr, hs, hchunk, hrun⟩ :=
    Scan.exists_behind_chunk hinert ht hkind hend hcomplete source
  have hboth := Scan.follows_behind hcompiled hline chunk source hr hs
  have hwhole : scan g (chunk ++ source) = (Scan.run g (String.ofList (chunk ++ source))
      ((tokensOf g source).map (Token.behind chunk)) m).finish.result := by
    rw [← hrun]
    exact scan_eq g (chunk ++ source)
  have hsource : scan g source =
      (Scan.run g (String.ofList source) (tokensOf g source) {}).finish.result := scan_eq g source
  rw [hwhole, hsource, hchunk]
  refine ⟨?_, ?_, hboth.stats⟩
  · obtain ⟨retold, hretold, hrelated⟩ := hboth.symbols
    have hbehind := eq_map_of_forall₂ (fun _ _ hab =>
      Symbol.Retold.eq_behind (tokensOf_isPart g source) hab) hrelated
    rw [hbehind] at hretold
    exact hretold
  · obtain ⟨retold, hretold, hrelated⟩ := hboth.diagnostics
    exact ⟨retold, hretold, hrelated.imp fun _ _ hab => hab.moved⟩

/-- A class, and behind it a source in which a brace is not closed. -/
theorem scan_chunk_of_class :
    let chunk := "class A \x7b\nint f() \x7b \x7d \x7d".toList
    let source := "class B \x7b void g() \x7b".toList
    let t : Token := ⟨.punctuation '}', "\x7d", 22, 23, 2, 13, true⟩
    t ∈ tokensOf (.ofProfile .java) chunk ∧ t.isPunct '}' = true ∧
      t.stop = Text.byteSize chunk ∧ (scan (.ofProfile .java) chunk).diagnostics = [] ∧
      (scan (.ofProfile .java) (chunk ++ source)).symbols =
        (scan (.ofProfile .java) chunk).symbols ++
          (scan (.ofProfile .java) source).symbols.map (Symbol.behind chunk) ∧
      (scan (.ofProfile .java) (chunk ++ source)).stats =
        (scan (.ofProfile .java) chunk).stats.join (scan (.ofProfile .java) source).stats := by
  intro chunk source t
  have hjava : Grammar.ofProfile .java ∈ Profile.builtins.map Grammar.ofProfile :=
    List.mem_map_of_mem (List.mem_cons_of_mem _ List.mem_cons_self)
  have ht : t ∈ tokensOf (.ofProfile .java) chunk := by decide +kernel
  have hkind : t.isPunct '}' = true := by decide
  have hend : t.stop = Text.byteSize chunk := by decide +kernel
  have hnone : (scan (.ofProfile .java) chunk).diagnostics = [] := by decide +kernel
  have hcomplete : ∀ d ∈ (scan (.ofProfile .java) chunk).diagnostics, ¬d.IsEndOfInput := by
    rw [hnone]
    exact fun d hd => absurd hd List.not_mem_nil
  obtain ⟨hsymbols, -, hstats⟩ :=
    scan_chunk (Or.inl hjava) ht (Or.inl hkind) hend hcomplete source
  exact ⟨ht, hkind, hend, hnone, hsymbols, hstats⟩

end DeclTags
