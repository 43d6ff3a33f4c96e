import DeclTags.Profile.Builtin
import DeclTags.Proofs.Cuts
import DeclTags.Proofs.Held

set_option autoImplicit false

/-! # Truncated sources

The symbols of the beginning of a source are a beginning of the symbols of the source
(`symbols_append`). The two scans get the same tokens up to a point, and up to there they
decide alike, since a decision sees of the text only slices between tokens that are before the cut
(`Scan.run_congr`). Behind that point the scan of the beginning meets no brace or semicolon any more
(`Lexer.tokens_withMore`), so it reports nothing.
-/

namespace DeclTags

/-! ## Slices before the cut -/

namespace Text

/-- A slice of the beginning of a text is the same slice of the text. -/
theorem slice_append {source : List Char} (more : List Char) {start stop : Nat}
    (hstart : IsBoundary source start) (hstop : IsBoundary source stop) :
    slice start stop (String.ofList (source ++ more)) =
      slice start stop (String.ofList source) := by
  obtain ⟨before, rest, hs, rfl⟩ := hstart
  obtain ⟨before', after, hs', rfl⟩ := hstop
  rcases Nat.lt_or_ge (byteSize before) (byteSize before') with hlt | hge
  · obtain ⟨part, rfl⟩ := exists_part_of_lt hs hs' hlt
    rw [byteSize_append, hs', slice_part, List.append_assoc, slice_part]
  · rw [slice_of_le hge, slice_of_le hge]

end Text

/-- Tokens of the beginning of a text have the same slices between them in the whole text. -/
theorem sameSlices_append {source : List Char} (more : List Char) {ts : List Token}
    (h : ∀ t ∈ ts, t.IsPart source) :
    SameSlices (String.ofList source) (String.ofList (source ++ more)) ts :=
  fun o ho c hc => (Text.slice_append more (h o ho).2 (h c hc).1).symm

/-! ## Scans that see the same slices -/

namespace Recognizer

variable {g : Grammar} {source source' : String} {r : Recognizer} {tracker : ScopeTracker}

theorem openBrace_congr (h : SameSlices source source' r.held) :
    r.openBrace g source tracker = r.openBrace g source' tracker := by
  rw [openBrace, Candidate.atBrace_congr (h.mono (List.subset_append_right _ _)), openBrace]

theorem semicolon_congr {t : Token} (h : SameSlices source source' r.held) :
    r.semicolon g source tracker t = r.semicolon g source' tracker t := by
  rw [semicolon, Candidate.atSemicolon?_congr (h.mono (List.subset_append_right _ _)), semicolon]

end Recognizer

namespace Scan

variable {g : Grammar} {source source' : String} {s : Scan} {t : Token}

theorem decision?_congr (h : SameSlices source source' s.recognizer.held) :
    s.decision? g source t = s.decision? g source' t := by
  rw [decision?, Recognizer.openBrace_congr h, Recognizer.semicolon_congr h, decision?]

theorem feed_congr (h : SameSlices source source' s.recognizer.held) :
    s.feed g source t = s.feed g source' t := by
  rcases t.structural_cases with ho | hc | hs | hp
  · rw [feed_opening ho, feed_opening ho, openScope, Recognizer.openBrace_congr h, openScope]
  · rw [feed_closing hc, feed_closing hc]
  · rw [feed_semicolon hs, feed_semicolon hs, semicolon, Recognizer.semicolon_congr h, semicolon]
  · rw [feed_plain hp, feed_plain hp]

/-- Scans of two texts do not differ as long as the slices between the tokens do not. -/
theorem run_congr {ts : List Token} (h : SameSlices source source' (s.recognizer.held ++ ts)) :
    run g source ts s = run g source' ts s ∧ reported g source ts s = reported g source' ts s := by
  induction ts generalizing s with
  | nil => exact ⟨rfl, rfl⟩
  | cons t ts ih =>
      have hheld : SameSlices source source' s.recognizer.held :=
        h.mono (List.subset_append_left _ _)
      have hfeed : s.feed g source t = s.feed g source' t := feed_congr hheld
      have hsub : (s.feed g source t).recognizer.held ++ ts ⊆ s.recognizer.held ++ t :: ts := by
        rw [List.append_cons]
        exact (feed_held_sublist.append (List.Sublist.refl ts)).subset
      obtain ⟨hrun, hreported⟩ := ih (h.mono hsub)
      rw [run_cons, run_cons, reported_cons, reported_cons, symbol?, symbol?, ← hfeed,
        decision?_congr hheld, hrun, hreported]
      exact ⟨rfl, rfl⟩

/-- Where no token carries structure nothing is reported. -/
theorem reported_of_not_structural {ts : List Token} (h : ∀ t ∈ ts, t.isStructural = false) :
    reported g source ts s = [] := by
  induction ts generalizing s with
  | nil => rfl
  | cons t ts ih =>
      rw [reported_cons, symbol?, decision?_of_plain (h t List.mem_cons_self),
        ih fun u hu => h u (List.mem_cons_of_mem _ hu)]
      rfl

end Scan

/-- The symbols of the beginning of a source are a beginning of its symbols, if its language has no
brace or semicolon in a marker. -/
theorem symbols_append {g : Grammar} (hg : g.MarkersInert) (source more : List Char) :
    (scan g source).symbols <+: (scan g (source ++ more)).symbols := by
  have htokens : ∃ common tail rest, tokensOf g source = common ++ tail ∧
      tokensOf g (source ++ more) = common ++ rest ∧ ∀ t ∈ tail, t.isStructural = false :=
    Lexer.tokens_withMore hg more (Lexer.ofSource source) rfl
  obtain ⟨common, tail, rest, hsource, hwhole, htail⟩ := htokens
  -- up to the end of the common tokens the two scans do not differ
  have hparts : ∀ t ∈ common, t.IsPart source := fun t ht =>
    tokensOf_isPart g source t (hsource ▸ List.mem_append_left _ ht)
  have hslices : SameSlices (String.ofList source) (String.ofList (source ++ more))
      (({} : Scan).recognizer.held ++ common) := sameSlices_append more hparts
  have hbeginning : (scan g source).symbols =
      Scan.reported g (String.ofList (source ++ more)) common {} := by
    calc (scan g source).symbols
        = Scan.reported g (String.ofList source) (common ++ tail) {} := by
          rw [scan_symbols, hsource]
      _ = Scan.reported g (String.ofList source) common {} := by
          rw [Scan.reported_append, Scan.reported_of_not_structural htail, List.append_nil]
      _ = Scan.reported g (String.ofList (source ++ more)) common {} :=
          (Scan.run_congr hslices).2
  rw [hbeginning, scan_symbols, hwhole, Scan.reported_append]
  exact List.prefix_append _ _

/-! ## The languages that are built in -/

/-- The markers of a profile with which a comment or a verbatim string begins. -/
def Profile.markers (p : Profile) : List String :=
  p.comments.line.toList ++ p.comments.blockStart.toList ++ p.verbatimPrefixes

theorem Grammar.markersInert_ofProfile {p : Profile}
    (h : ∀ marker ∈ p.markers, Inert marker.toList) : (ofProfile p).MarkersInert where
  line marker hm := h marker (by simp [Profile.markers, show p.comments.line = some marker from hm])
  block opening closing hm := by
    simp only [ofProfile] at hm
    split at hm
    · next start _ hstart _ =>
      obtain ⟨rfl, -⟩ := Prod.mk.inj (Option.some.inj hm)
      exact h start (by simp [Profile.markers, hstart])
    · cases hm
  verbatim marker hm :=
    h marker (List.mem_append_right _ (List.mem_mergeSort.mp hm))

/-- No brace or semicolon stands in a marker of a language that is built in. -/
theorem builtins_markersInert :
    ∀ p ∈ Profile.builtins, (Grammar.ofProfile p).MarkersInert := by
  intro p hp
  have hp : p = .csharp ∨ p = .java := by simpa [Profile.builtins] using hp
  rcases hp with rfl | rfl
  · exact Grammar.markersInert_ofProfile
      (by simp [Profile.markers, Profile.csharp, CommentMarkers.usual, Inert])
  · exact Grammar.markersInert_ofProfile
      (by simp [Profile.markers, Profile.java, CommentMarkers.usual, Inert])

/-- **Truncation invents no symbol and changes none**: for the languages that are built in, and for
every other one without a brace or semicolon in a marker, the symbols of the beginning of a source
are a beginning of the symbols of the whole. -/
theorem scan_truncated {g : Grammar}
    (h : g ∈ Profile.builtins.map Grammar.ofProfile ∨ g.Compiled ∧ g.MarkersInert)
    (source more : List Char) :
    (scan g source).symbols <+: (scan g (source ++ more)).symbols := by
  have hg : g.MarkersInert := by
    rcases h with h | ⟨-, h⟩
    · obtain ⟨p, hp, rfl⟩ := List.mem_map.mp h
      exact builtins_markersInert p hp
    · exact h
  exact symbols_append hg source more

/-- A cut in a string with a brace in it. -/
theorem scan_truncated_in_string :
    let source := "void f()\x7b\"\x7b".toList
    let more := "\"; \x7d void g()\x7b\x7d".toList
    (scan (.ofProfile .java) source).symbols.map (·.name) = ["f"] ∧
      (scan (.ofProfile .java) (source ++ more)).symbols.map (·.name) = ["f", "g"] ∧
      (scan (.ofProfile .java) source).symbols <+:
        (scan (.ofProfile .java) (source ++ more)).symbols := by
  intro source more
  have hjava : Grammar.ofProfile .java ∈ Profile.builtins.map Grammar.ofProfile :=
    List.mem_map_of_mem (List.mem_cons_of_mem _ List.mem_cons_self)
  exact ⟨by decide +kernel, by decide +kernel, scan_truncated (Or.inl hjava) source more⟩

end DeclTags
