import DeclTags.Profile.Builtin
import DeclTags.Proofs.Accounting
import DeclTags.Proofs.Chunks
import DeclTags.Proofs.Layout
import DeclTags.Proofs.LineEndTokens
import DeclTags.Proofs.SourceOrder
import DeclTags.Proofs.Truncation

set_option autoImplicit false

/-! # Line ends and scans

A scan of a text with carriage returns tells what a scan of the text without tells, on the same
lines and in the same columns (`scan_withReturns`). The tokens of the one text are those of the
other, relocated, so that what is said of relocated tokens applies to the code among them. Comments
without an end are reported between the other diagnostics, so the two scans are followed over all
tokens here, doc comments apart (`Scan.Echoes`).

Two line ends do not read alike. A line feed that is the delimiter of verbatim strings is none
behind a carriage return, and a backslash takes only the carriage return along
(`line_ends_not_alike`).
-/

open scoped List

namespace DeclTags

/-! ## What is the same -/

/-- What is declared, where among the declarations, and where by lines and columns. -/
def Symbol.placed (x : Symbol) :
    (String × SymbolKind × List String × List String) × Nat × Nat × Nat :=
  (x.declared, x.startLine, x.span.line, x.span.column)

/-- What is reported, and on which line. -/
def Diagnostic.placed (e : Diagnostic) : DiagnosticKind × Nat := (e.kind, e.line)

/-- A token at its place in the text with carriage returns. Only literals get another text. -/
def Relocation.withReturns (source : List Char) : Relocation where
  map t :=
    { t.withReturns source with
      text := if t.kind.isLiteral then (t.withReturns source).text else t.text }
  lines := Eq
  kind_map _ := rfl
  terminated_map _ := rfl
  text_map t h := if_neg (by simp [h])
  lines_map _ := rfl

namespace Relocation

theorem withReturns_map_eq {g : Grammar} {source : List Char} {t : Token}
    (ht : t ∈ tokensOf g source) (h : t.isFiller = false) :
    (withReturns source).map t = t.withReturns source := by
  show ({ t.withReturns source with
    text := if t.kind.isLiteral then (t.withReturns source).text else t.text } : Token) = _
  cases hl : t.kind.isLiteral with
  | true => rfl
  | false =>
      have hcode : t.kind.isPlainCode = true := by
        rw [Token.isFiller, Bool.or_eq_false_iff] at h
        rw [TokenKind.isPlainCode, h.1, h.2, hl]
        rfl
      rw [← text_withReturns ht hcode]
      rfl

/-- Offsets keep their order, so what touches still does. -/
theorem withReturns_keepsAdjacency (source : List Char) (run : List Token) :
    (withReturns source).KeepsAdjacency run :=
  List.pairwise_of_forall fun _ _ =>
    (Text.offsetWithReturns_strictMono source).injective.eq_iff

end Relocation

/-! ## Diagnostics -/

namespace Scan

variable {g : Grammar} {source source' : String} {s s' : Scan} {t : Token}

/-- A token adds diagnostics at the end, and only a comment one of comments. -/
theorem feed_diagnostics (g : Grammar) (source : String) (s : Scan) (h : t.isFiller = false) :
    ∃ new : List Diagnostic,
    (s.feed g source t).diagnostics.toList = s.diagnostics.toList ++ new ∧
      ∀ e ∈ new, e.kind ≠ .unterminatedComment := by
  have hrecord : ∀ d : Decision, ∃ new : List Diagnostic,
      (s.record d).diagnostics.toList = s.diagnostics.toList ++ new ∧
        ∀ e ∈ new, e.kind ≠ .unterminatedComment := by
    intro d
    obtain ⟨new, hnew, hkind⟩ := record_diagnostics (s := s) d
    exact ⟨new, hnew, fun e he hk => by rw [hkind e he] at hk; cases hk⟩
  rcases t.structural_cases with ho | hc | hs | hp
  · rw [feed_opening ho]
    exact hrecord _
  · rw [feed_closing hc, closeScope]
    cases s.tracker.pop? with
    | none => exact ⟨[_], report_diagnostics _ _ _, by simp [Diagnostic.ofKind]⟩
    | some pair => exact ⟨[], (List.append_nil _).symm, by simp⟩
  · rw [feed_semicolon hs, semicolon]
    cases s.recognizer.semicolon g source s.tracker t with
    | mk d r =>
        cases d with
        | none => exact ⟨[], (List.append_nil _).symm, by simp⟩
        | some d => exact hrecord d
  · rw [feed_plain hp]
    cases he : openEnd? t with
    | none => exact ⟨[], (List.append_nil _).symm, by simp⟩
    | some e =>
        refine ⟨[e], Array.toList_push, fun d hd hk => ?_⟩
        obtain rfl := List.mem_singleton.mp hd
        rw [(openEnd?_kind_eq_iff he).mp hk] at h
        cases h

theorem finish_diagnostics (s : Scan) : ∃ new : List Diagnostic,
    s.finish.diagnostics.toList = s.diagnostics.toList ++ new ∧
      ∀ e ∈ new, e.kind ≠ .unterminatedComment := by
  unfold finish
  cases s.tracker.current? with
  | none =>
      show ∃ new, (if s.recognizer.inParenGroup then _ else s : Scan).diagnostics.toList = _ ∧ _
      split
      · exact ⟨[_], report_diagnostics _ _ _, by simp [Diagnostic.ofKind]⟩
      · exact ⟨[], (List.append_nil _).symm, by simp⟩
  | some innermost => exact ⟨[_], report_diagnostics _ _ _, by simp [Diagnostic.ofKind]⟩

/-- Diagnostics at the same places stay so if those that are added are at the same places, comments
apart. -/
theorem placed_append_eq {xs xs' new new' : List Diagnostic}
    (h : xs'.map Diagnostic.placed = xs.map Diagnostic.placed)
    (hnew : ∀ e ∈ new, e.kind ≠ .unterminatedComment)
    (hnew' : ∀ e ∈ new', e.kind ≠ .unterminatedComment)
    (hrest : ((xs' ++ new').filter (·.kind ≠ .unterminatedComment)).map Diagnostic.placed =
      ((xs ++ new).filter (·.kind ≠ .unterminatedComment)).map Diagnostic.placed) :
    (xs' ++ new').map Diagnostic.placed = (xs ++ new).map Diagnostic.placed := by
  -- filtering looks at the kind only, so it commutes with the places
  have hfilter : ∀ ys : List Diagnostic,
      (ys.filter (·.kind ≠ .unterminatedComment)).map Diagnostic.placed =
        (ys.map Diagnostic.placed).filter (·.1 ≠ .unterminatedComment) := by
    intro ys
    rw [List.filter_map]
    rfl
  have hkeep : ∀ ys : List Diagnostic, (∀ e ∈ ys, e.kind ≠ .unterminatedComment) →
      ys.filter (·.kind ≠ .unterminatedComment) = ys :=
    fun ys hys => List.filter_eq_self.mpr fun e he => decide_eq_true (hys e he)
  rw [List.filter_append, List.filter_append, List.map_append, List.map_append, hkeep _ hnew,
    hkeep _ hnew', hfilter, hfilter, h] at hrest
  rw [List.map_append, List.map_append, h, List.append_cancel_left hrest]

/-! ## Two scans, line by line -/

/-- The second scan tells of relocated tokens what the first one tells of the tokens, doc comments
apart, and reports the same on the same lines. -/
structure Echoes (ρ : Relocation) (source source' : String) (all : List Token) (s s' : Scan) :
    Prop where
  follows : Follows ρ source source' all {} s.undocumented s'.undocumented
  diagnostics :
    s'.diagnostics.toList.map Diagnostic.placed = s.diagnostics.toList.map Diagnostic.placed
  endLine : s'.endLine = s.endLine

namespace Echoes

variable {ρ : Relocation} {all : List Token}

theorem init : Echoes ρ source source' all {} {} where
  follows := by
    rw [undocumented_init]
    exact .init rfl rfl
  diagnostics := rfl
  endLine := rfl

/-- What is reported of the code, comments apart, stands on the same lines. -/
theorem placed_of_follows (hρ : ∀ m n, ρ.lines m n → m = n)
    (h : Follows ρ source source' all {} s.undocumented s'.undocumented) :
    (s'.diagnostics.toList.filter (·.kind ≠ .unterminatedComment)).map Diagnostic.placed =
      (s.diagnostics.toList.filter (·.kind ≠ .unterminatedComment)).map Diagnostic.placed := by
  obtain ⟨retold, heq, hretold⟩ := h.diagnostics
  have hplaced : ∀ a b : Diagnostic, a.Retold ρ b → b.placed = a.placed := by
    intro a b hab
    cases hab with
    | plain _ hline _ =>
        rw [Diagnostic.placed, Diagnostic.placed]
        exact congrArg _ (hρ _ _ hline).symm
    | unmatched hline => exact congrArg (Prod.mk _) (hρ _ _ hline).symm
    | openScopes _ hline _ => exact congrArg (Prod.mk _) (hρ _ _ hline).symm
  have hmap := map_eq_of_forall₂ hplaced hretold
  have hbase : ({} : Scan).diagnostics.toList = [] := rfl
  rw [hbase, List.nil_append] at heq
  rw [← heq] at hmap
  rwa [undocumented, Array.toList_filter, undocumented, Array.toList_filter] at hmap

/-- White space and comments are read alike if they end alike and stand on the same line. -/
theorem feed_filler (h : Echoes ρ source source' all s s') {t t' : Token}
    (ht : t.isFiller = true) (hkind : t'.kind = t.kind) (hline : t'.line = t.line)
    (hterminated : t'.terminated = t.terminated) :
    Echoes ρ source source' all (s.feed g source t) (s'.feed g source' t') := by
  have ht' : t'.isFiller = true := by rw [Token.isFiller, hkind]; exact ht
  have hplain := Token.not_structural_of_isFiller ht
  have hplain' := Token.not_structural_of_isFiller ht'
  have hend : openEnd? t' = openEnd? t := by
    rw [openEnd?, hkind, hline, hterminated, openEnd?]
  refine ⟨?_, ?_, ?_⟩
  · rw [Scan.feed_filler ht, Scan.feed_filler ht']
    exact h.follows
  · rw [feed_plain hplain, feed_plain hplain', hend]
    cases openEnd? t with
    | none => exact h.diagnostics
    | some e =>
        show (s'.diagnostics.push e).toList.map _ = (s.diagnostics.push e).toList.map _
        rw [Array.toList_push, Array.toList_push, List.map_append, List.map_append, h.diagnostics]
  · rw [feed_endLine, feed_endLine, h.endLine, endLineAfter, hkind, hline, endLineAfter]

/-- A token of code is read like what it becomes. -/
theorem feed_code (hρ : ∀ m n, ρ.lines m n → m = n) (hadj : ρ.KeepsAdjacency all)
    (h : Echoes ρ source source' all s s') {t : Token} (ht : t.isFiller = false)
    (hall : s.undocumented.recognizer.held <+ all) :
    Echoes ρ source source' all (s.feed g source t) (s'.feed g source' (ρ.map t)) := by
  have ht' : (ρ.map t).isFiller = false := by rw [Token.isFiller, ρ.kind_map]; exact ht
  have hfollows : Follows ρ source source' all {} (s.feed g source t).undocumented
      (s'.feed g source' (ρ.map t)).undocumented := by
    rw [← feed_undocumented ht, ← feed_undocumented ht']
    exact h.follows.feed hadj hall
  refine ⟨hfollows, ?_, ?_⟩
  · obtain ⟨new, hnew, hkinds⟩ := feed_diagnostics g source s ht
    obtain ⟨new', hnew', hkinds'⟩ := feed_diagnostics g source' s' ht'
    have hplaced := placed_of_follows hρ hfollows
    rw [hnew, hnew'] at hplaced ⊢
    exact placed_append_eq h.diagnostics hkinds hkinds' hplaced
  · have hline : (ρ.map t).line = t.line := (hρ _ _ (ρ.lines_map t)).symm
    rw [feed_endLine, feed_endLine, h.endLine, endLineAfter, ρ.kind_map, hline, endLineAfter]

/-- **Two texts are read alike, token by token**, if the code of the one is that of the other,
relocated within its lines, and white space and comments end alike on the same lines. -/
theorem run (hρ : ∀ m n, ρ.lines m n → m = n) (hadj : ρ.KeepsAdjacency all)
    {f : Token → Token} (hkind : ∀ t, (f t).kind = t.kind) (hline : ∀ t, (f t).line = t.line)
    (hterminated : ∀ t, (f t).terminated = t.terminated) {ts : List Token}
    (hcode : ∀ t ∈ ts, t.isFiller = false → ρ.map t = f t)
    (h : Echoes ρ source source' all s s')
    (hall : s.undocumented.recognizer.held ++ ts.filter (!·.isFiller) <+ all) :
    Echoes ρ source source' all (run g source ts s) (run g source' (ts.map f) s') := by
  induction ts generalizing s s' with
  | nil => exact h
  | cons t ts ih =>
      have hcode' : ∀ u ∈ ts, u.isFiller = false → ρ.map u = f u :=
        fun u hu => hcode u (List.mem_cons_of_mem t hu)
      cases ht : t.isFiller with
      | true =>
          rw [List.filter_cons_of_neg (by simp [ht])] at hall
          refine ih hcode' (h.feed_filler ht (hkind t) (hline t) (hterminated t)) ?_
          rw [Scan.feed_filler ht]
          exact hall
      | false =>
          rw [List.filter_cons_of_pos (by simp [ht])] at hall
          have hheld : s.undocumented.recognizer.held <+ all :=
            (List.sublist_append_left _ _).trans hall
          have hfeed := h.feed_code (g := g) hρ hadj ht hheld
          rw [hcode t List.mem_cons_self ht] at hfeed
          refine ih hcode' hfeed (List.Sublist.trans ?_ hall)
          -- what is held behind the token was held before it, or is the token
          rw [← feed_undocumented ht, List.append_cons]
          exact feed_held_sublist.append (List.Sublist.refl _)

theorem finish (hρ : ∀ m n, ρ.lines m n → m = n) (h : Echoes ρ source source' all s s')
    (hrefl : ∀ n, ρ.lines n n) : Echoes ρ source source' all s.finish s'.finish := by
  have hend : ρ.lines s.undocumented.endLine s'.undocumented.endLine := by
    have hsame : s'.undocumented.endLine = s.undocumented.endLine := h.endLine
    rw [hsame]
    exact hrefl _
  have hfollows : Follows ρ source source' all {} s.finish.undocumented s'.finish.undocumented := by
    rw [← finish_undocumented, ← finish_undocumented]
    exact h.follows.finish hend
  refine ⟨hfollows, ?_, by rw [finish_endLine, finish_endLine, h.endLine]⟩
  obtain ⟨new, hnew, hkinds⟩ := finish_diagnostics s
  obtain ⟨new', hnew', hkinds'⟩ := finish_diagnostics s'
  have hplaced := placed_of_follows hρ hfollows
  rw [hnew, hnew'] at hplaced ⊢
  exact placed_append_eq h.diagnostics hkinds hkinds' hplaced

/-- What the scans have found is at the same places. -/
theorem symbols_placed (hρ : ∀ m n, ρ.lines m n → m = n)
    (hcolumn : ∀ t, (ρ.map t).line = t.line ∧ (ρ.map t).column = t.column)
    (h : Echoes ρ source source' all s s') :
    s'.table.toList.map Symbol.placed = s.table.toList.map Symbol.placed := by
  obtain ⟨retold, heq, hretold⟩ := h.follows.symbols
  have hplaced : ∀ a b : Symbol, a.Retold ρ source source' all b → b.placed = a.placed := by
    intro a b hab
    obtain ⟨n, ha, hb⟩ := hab.span
    have hdeclared : b.declared = a.declared := by
      rw [Symbol.declared, hab.name, hab.kind, hab.modifiers, hab.path, Symbol.declared]
    rw [Symbol.placed, hdeclared, ← hρ _ _ hab.startLine, hb, Symbol.placed, ha]
    show (_, _, (ρ.map n).line, (ρ.map n).column) = _
    rw [(hcolumn n).1, (hcolumn n).2]
    rfl
  have hdoc : ∀ u : Scan, u.undocumented.table.toList.map Symbol.placed =
      u.table.toList.map Symbol.placed := by
    intro u
    rw [undocumented, SymbolTable.toList, SymbolTable.toList, Array.toList_map, List.map_map]
    rfl
  have hmap := map_eq_of_forall₂ hplaced hretold
  have hbase : ({} : Scan).table.toList = [] := rfl
  rw [hbase, List.nil_append] at heq
  rwa [← heq, hdoc, hdoc] at hmap

end Echoes

end Scan

/-! ## Line ends -/

/-- **Line ends of either kind are scanned alike.** If no marker has a line end in it, no line end
is the delimiter of a verbatim string, and no quoted literal of the source goes over a line end,
then a carriage return before each line feed changes neither what is declared, nor what is reported,
nor the lines and columns of either, nor the counts. -/
theorem scan_withReturns {g : Grammar} (hg : g.MarkersInLine) (hd : g.DelimitersInLine)
    {source : List Char} (hr : '\r' ∉ source) (hf : ∀ t ∈ tokensOf g source, t.KeepsToLine g) :
    (scan g (Text.withReturns source)).symbols.map Symbol.placed =
      (scan g source).symbols.map Symbol.placed ∧
    (scan g (Text.withReturns source)).diagnostics.map Diagnostic.placed =
      (scan g source).diagnostics.map Diagnostic.placed ∧
    (scan g (Text.withReturns source)).stats = (scan g source).stats := by
  let ρ := Relocation.withReturns source
  let all := (tokensOf g source).filter (!·.isFiller)
  have hρ : ∀ m n, ρ.lines m n → m = n := fun _ _ h => h
  have hrun : Scan.Echoes ρ (String.ofList source) (String.ofList (Text.withReturns source)) all
      (Scan.run g (String.ofList source) (tokensOf g source) {})
      (Scan.run g (String.ofList (Text.withReturns source))
        ((tokensOf g source).map (Token.withReturns source)) {}) :=
    Scan.Echoes.init.run (f := Token.withReturns source) hρ
      (Relocation.withReturns_keepsAdjacency source all) (fun _ => rfl) (fun _ => rfl)
      (fun _ => rfl) (fun t ht => Relocation.withReturns_map_eq ht) (by
        rw [Scan.undocumented_init]
        exact List.Sublist.refl _)
  have hfinish := hrun.finish hρ fun _ => rfl
  have hscan : scan g source =
      (Scan.run g (String.ofList source) (tokensOf g source) {}).finish.result := scan_eq g source
  have hscan' : scan g (Text.withReturns source) =
      (Scan.run g (String.ofList (Text.withReturns source))
        ((tokensOf g source).map (Token.withReturns source)) {}).finish.result := by
    rw [← tokensOf_withReturns hg hd hr hf]
    exact scan_eq g _
  rw [hscan, hscan']
  refine ⟨hfinish.symbols_placed hρ fun _ => ⟨rfl, rfl⟩, hfinish.diagnostics, ?_⟩
  have hstats : (Scan.finish _).tracker.stats =
      ({} : Scan).tracker.stats.join (Scan.finish _).tracker.stats := hfinish.follows.stats
  show (Scan.finish _).tracker.stats = (Scan.finish _).tracker.stats
  rw [hstats]
  simp [ScopeStats.join]

/-! ## Languages and sources -/

/-- The markers of a grammar are those of its profile. -/
theorem Grammar.markersInLine_ofProfile {p : Profile}
    (h : ∀ marker ∈ p.markers ++ p.comments.blockEnd.toList, Text.InLine marker.toList) :
    (ofProfile p).MarkersInLine where
  line marker hm := h marker (by simp [Profile.markers, show p.comments.line = some marker from hm])
  block opening closing hm := by
    simp only [ofProfile] at hm
    split at hm
    · next start stop hstart hstop =>
      obtain ⟨rfl, rfl⟩ := Prod.mk.inj (Option.some.inj hm)
      exact ⟨h start (by simp [Profile.markers, hstart]), h stop (by simp [hstop])⟩
    · cases hm
  verbatim marker hm :=
    h marker (List.mem_append_left _ (List.mem_append_right _ (List.mem_mergeSort.mp hm)))

instance (cs : List Char) : Decidable (Text.InLine cs) :=
  List.decidableBAll (fun c => c ≠ '\r' ∧ c ≠ '\n') cs

instance (g : Grammar) (t : Token) : Decidable (t.KeepsToLine g) :=
  inferInstanceAs (Decidable (_ ∨ _ → _ → _))

/-- The languages that are built in keep their markers and delimiters to the line. -/
theorem builtins_inLine : ∀ p ∈ Profile.builtins,
    (Grammar.ofProfile p).MarkersInLine ∧ (Grammar.ofProfile p).DelimitersInLine := by
  have hmarkers : ∀ p ∈ Profile.builtins, ∀ marker ∈ p.markers ++ p.comments.blockEnd.toList,
      Text.InLine marker.toList := by decide
  have hdelimiters : ∀ p ∈ Profile.builtins, p.stringDelimiters.contains '\r' = false ∧
      p.stringDelimiters.contains '\n' = false := by decide
  exact fun p hp => ⟨Grammar.markersInLine_ofProfile (hmarkers p hp), fun _ => hdelimiters p hp⟩

/-- A class over several lines, with comments and a verbatim string that goes over a line end. -/
theorem scan_withReturns_of_class :
    let g := Grammar.ofProfile .csharp
    let source := "class A \x7b // a\n\tA() \x7b string s = @\"b\nc\"; \x7d\n/*".toList
    g.MarkersInLine ∧ g.DelimitersInLine ∧ '\r' ∉ source ∧
      (∀ t ∈ tokensOf g source, t.KeepsToLine g) ∧
      (scan g (Text.withReturns source)).symbols.map Symbol.placed =
        [(("A", .constructor, [], ["A"]), 2, 2, 2)] ∧
      (scan g (Text.withReturns source)).diagnostics.map Diagnostic.placed =
        [(.unterminatedComment, 4), (.unbalancedBraces, 4)] := by
  intro g source
  obtain ⟨hmarkers, hdelimiters⟩ := builtins_inLine .csharp (by decide)
  have hr : '\r' ∉ source := by decide +kernel
  have hf : ∀ t ∈ tokensOf g source, t.KeepsToLine g := by
    show ∀ t ∈ tokensOf (.ofProfile .csharp) source, t.KeepsToLine (.ofProfile .csharp)
    rw [ofProfile_csharp]
    decide +kernel
  have hsymbols : (scan g source).symbols.map Symbol.placed =
      [(("A", .constructor, [], ["A"]), 2, 2, 2)] := by
    show (scan (.ofProfile .csharp) source).symbols.map Symbol.placed = _
    rw [ofProfile_csharp]
    decide +kernel
  have hdiagnostics : (scan g source).diagnostics.map Diagnostic.placed =
      [(.unterminatedComment, 4), (.unbalancedBraces, 4)] := by
    show (scan (.ofProfile .csharp) source).diagnostics.map Diagnostic.placed = _
    rw [ofProfile_csharp]
    decide +kernel
  obtain ⟨hsame, hsame', -⟩ := scan_withReturns hmarkers hdelimiters hr hf
  exact ⟨hmarkers, hdelimiters, hr, hf, hsame.trans hsymbols, hsame'.trans hdiagnostics⟩

/-- A language with verbatim strings that a line feed delimits. -/
def feedProfile : Profile where
  name := "feeds"
  stringDelimiters := ['\n']
  verbatimPrefixes := ["@"]

theorem ofProfile_feedProfile : Grammar.ofProfile feedProfile =
    { Grammar.ofProfile { feedProfile with verbatimPrefixes := [] } with
      verbatimPrefixes := ["@"] } := by
  have h : (Grammar.ofProfile feedProfile).verbatimPrefixes = ["@"] := by
    simp [Grammar.ofProfile, feedProfile]
  rw [← h]
  rfl

/-- **Line ends do not always read alike.** No marker has a line end in it, and the sources have no
carriage return. A line feed delimits a verbatim string, but not behind a carriage return; and of an
escaped line end a backslash takes only the carriage return along, so that the literal is broken
off. -/
theorem line_ends_not_alike :
    (let g := Grammar.ofProfile feedProfile
      let source := ['@', '\n']
      g.Compiled ∧ g.MarkersInLine ∧ '\r' ∉ source ∧
        (scan g source).diagnostics.map Diagnostic.placed = [(.unterminatedString, 1)] ∧
        (scan g (Text.withReturns source)).diagnostics = []) ∧
    (let g := Grammar.ofProfile .java
      let source := ['"', '\\', '\n', '"']
      g.Compiled ∧ g.MarkersInLine ∧ '\r' ∉ source ∧
        (scan g source).diagnostics = [] ∧
        (scan g (Text.withReturns source)).diagnostics.map Diagnostic.placed =
          [(.unterminatedString, 1), (.unterminatedString, 2)]) := by
  have hvalid : feedProfile.fault? = none := by decide +kernel
  have hmarkers : ∀ marker ∈ feedProfile.markers ++ feedProfile.comments.blockEnd.toList,
      Text.InLine marker.toList := by decide
  refine ⟨⟨⟨feedProfile, by rw [Grammar.compile, hvalid]⟩,
    Grammar.markersInLine_ofProfile hmarkers, by decide, ?_, ?_⟩,
    builtins_compiled .java (by decide), (builtins_inLine .java (by decide)).1, by decide, ?_, ?_⟩
  · rw [ofProfile_feedProfile]
    decide +kernel
  · rw [ofProfile_feedProfile]
    decide +kernel
  · decide +kernel
  · decide +kernel

end DeclTags
