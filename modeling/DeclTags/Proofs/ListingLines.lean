import DeclTags.Proofs.Decimals
import DeclTags.Proofs.Reports
import DeclTags.Proofs.Rows
import DeclTags.Proofs.Words
import DeclTags.Report.Listing

set_option autoImplicit false

/-! # The lines of a listing

A listing without colours is meant to have one line for each thing that it shows, two for a symbol
with a summary (`listingRows`). Names, places and summaries hold no line feed, whatever the source.
Three texts may: the name of a language, the signature of a symbol, in which the parameters stand as
they are written, and the message of an ambiguity, which quotes a literal. A listing has the lines
that it is meant to have just if none of these does (`listing_lines_iff`).
-/

namespace DeclTags

/-! ## Rows -/

/-- The lines of a symbol. -/
def Symbol.listingRows (x : Symbol) : List String :=
  let scope := if x.path.isEmpty then "" else "  in " ++ String.intercalate "." x.path
  ("    " ++ Text.padRight 8 x.span.shown ++ " " ++ Text.padRight 12 x.kind.name ++ " " ++
      x.signature ++ scope) ::
    (x.docSummary?.map ("             " ++ ·)).toList

/-- The line of a diagnostic. -/
def Diagnostic.listingRow (d : Diagnostic) : String :=
  "    " ++ severityLabel false d.severity ++ " " ++ Text.padRight 8 (toString d.line) ++ " " ++
    Text.padRight 22 d.kind.name ++ " " ++ d.message

/-- The lines of a file, the empty one behind them included. -/
def FileScan.listingRows (f : FileScan) : List String :=
  ["  " ++ f.shownPath ++ " (" ++ f.language ++ ")"] ++
    f.result.symbols.flatMap Symbol.listingRows ++
    f.result.diagnostics.map Diagnostic.listingRow ++ [""]

/-- The lines that a listing is meant to have. -/
def listingRows (path : String) (scans : List FileScan) : List String :=
  ["", "  bracetag v" ++ version, "", "  Scanning: " ++ path, ""] ++
    scans.flatMap FileScan.listingRows ++
    [String.ofList (summaryLine false scans).toList.dropLast, ""]

/-- The number of lines of a file: one for its path, one for each symbol and another for each
summary, one for each diagnostic and an empty one. -/
def FileScan.listingLines (f : FileScan) : Nat :=
  1 + f.result.symbols.length + f.result.symbols.countP (·.docSummary?.isSome) +
    f.result.diagnostics.length + 1

theorem length_listingRows (path : String) (scans : List FileScan) :
    (listingRows path scans).length = 5 + (scans.map FileScan.listingLines).sum + 2 := by
  have hsymbol : ∀ x : Symbol,
      x.listingRows.length = 1 + if x.docSummary?.isSome then 1 else 0 := by
    intro x
    rw [Symbol.listingRows, List.length_cons]
    cases x.docSummary? <;> rfl
  have hsymbols : ∀ xs : List Symbol, (xs.flatMap Symbol.listingRows).length =
      xs.length + xs.countP (·.docSummary?.isSome) := by
    intro xs
    induction xs with
    | nil => rfl
    | cons x xs ih =>
        rw [List.flatMap_cons, List.length_append, ih, hsymbol, List.length_cons, List.countP_cons]
        omega
  have hfile : ∀ f : FileScan, f.listingRows.length = f.listingLines := by
    intro f
    simp only [FileScan.listingRows, FileScan.listingLines, List.length_append, List.length_map,
      List.length_singleton, hsymbols]
    omega
  rw [listingRows, List.length_append, List.length_append, List.length_flatMap,
    List.map_congr_left fun f _ => hfile f]
  rfl

/-! ## The text of a listing -/

/-- Some lines as a text. -/
def textOf (rows : List String) : List Char := rows.flatMap fun row => row.toList ++ ['\n']

@[simp] theorem textOf_nil : textOf [] = [] := rfl

@[simp] theorem textOf_cons (row : String) (rows : List String) :
    textOf (row :: rows) = row.toList ++ '\n' :: textOf rows := by
  simp [textOf]

@[simp] theorem textOf_append (rows others : List String) :
    textOf (rows ++ others) = textOf rows ++ textOf others := List.flatMap_append

theorem textOf_flatMap {α : Type} (xs : List α) (rowsOf : α → List String) :
    textOf (xs.flatMap rowsOf) = xs.flatMap fun x => textOf (rowsOf x) := List.flatMap_assoc

@[simp] theorem padRight_zero (text : String) : Text.padRight 0 text = text := by
  simp [Text.padRight]

@[simp] theorem styled_plain (style : TextStyle) (width : Nat) (text : String) :
    styled false style width text = Text.padRight width text := rfl

theorem toList_symbolLines (x : Symbol) : (symbolLines false x).toList = textOf x.listingRows := by
  unfold symbolLines Symbol.listingRows
  cases x.docSummary? <;> cases x.path <;> simp

theorem toList_diagnosticLine (d : Diagnostic) :
    (diagnosticLine false d).toList = d.listingRow.toList ++ ['\n'] := by
  simp [diagnosticLine, Diagnostic.listingRow]

theorem toList_fileLines (f : FileScan) : (fileLines false f).toList = textOf f.listingRows := by
  have hsymbols : (String.join (f.result.symbols.map (symbolLines false))).toList =
      textOf (f.result.symbols.flatMap Symbol.listingRows) := by
    rw [String.toList_join, List.flatMap_map, textOf_flatMap]
    exact List.flatMap_congr fun x _ => toList_symbolLines x
  have hdiagnostics : (String.join (f.result.diagnostics.map (diagnosticLine false))).toList =
      textOf (f.result.diagnostics.map Diagnostic.listingRow) := by
    rw [String.toList_join, List.flatMap_map, textOf, List.flatMap_map]
    exact List.flatMap_congr fun d _ => toList_diagnosticLine d
  rw [fileLines, String.toList_append, String.toList_append, String.toList_append, hsymbols,
    hdiagnostics, FileScan.listingRows]
  simp

theorem lineFeed_not_mem_toDigits (n : Nat) : '\n' ∉ Nat.toDigits 10 n := by
  intro hmem
  have hdigit := Decimals.isDigit_of_mem n '\n' hmem
  exact absurd hdigit (by decide)

/-- A count and a word hold no line feed. -/
theorem lineFeed_not_mem_counted {word : String}
    (hword : word ∈ ["symbol", "file", "warning", "note"]) (n : Nat) :
    '\n' ∉ (plural n word).toList ∧ '\n' ∉ (counted n word).toList := by
  have hplain : ∀ word ∈ ["symbol", "file", "warning", "note"], '\n' ∉ word.toList := by decide
  have hplural : '\n' ∉ (plural n word).toList := by
    unfold plural
    split
    · exact hplain word hword
    · simp [hplain word hword]
  refine ⟨hplural, ?_⟩
  simp [counted, hplural, lineFeed_not_mem_toDigits]

/-- The line of the sums ends with its only line feed. -/
theorem summaryLine_eq (scans : List FileScan) :
    ∃ row : String, summaryLine false scans = row ++ "\n" ∧ '\n' ∉ row.toList := by
  have hnotes : ∀ n, ∀ word ∈ ["symbol", "file", "warning", "note"],
      '\n' ∉ (if 0 < n then "  " ++ counted n word else "").toList := by
    intro n word hword
    split
    · simp [(lineFeed_not_mem_counted hword n).2]
    · exact List.not_mem_nil
  refine ⟨_, rfl, ?_⟩
  simp only [styled_plain, padRight_zero, String.toList_append, List.mem_append, not_or]
  refine ⟨⟨⟨⟨⟨⟨⟨by decide, ?symbols⟩, by decide⟩, ?word⟩, by decide⟩, ?files⟩, ?warnings⟩, ?notes⟩
  case symbols =>
    rw [Decimals.toList_toString]
    exact lineFeed_not_mem_toDigits _
  case word => exact (lineFeed_not_mem_counted (by decide) _).1
  case files => exact (lineFeed_not_mem_counted (by decide) _).2
  case warnings => exact hnotes _ "warning" (by decide)
  case notes => exact hnotes _ "note" (by decide)

theorem toList_listingText (path : String) (scans : List FileScan) :
    (listingText false path scans).toList = textOf (listingRows path scans) := by
  obtain ⟨row, hrow, -⟩ := summaryLine_eq scans
  have hfiles : (String.join (scans.map (fileLines false))).toList =
      textOf (scans.flatMap FileScan.listingRows) := by
    rw [String.toList_join, List.flatMap_map, textOf_flatMap]
    exact List.flatMap_congr fun f _ => toList_fileLines f
  rw [listingText, String.toList_append, String.toList_append, String.toList_append, hfiles,
    listingRows, hrow]
  simp

/-! ## Rows of one line -/

/-- The rows are lines. -/
def AreLines (rows : List String) : Prop := ∀ row ∈ rows, '\n' ∉ row.toList

@[simp] theorem areLines_nil : AreLines [] := fun _ h => absurd h List.not_mem_nil

@[simp] theorem areLines_cons {row : String} {rows : List String} :
    AreLines (row :: rows) ↔ '\n' ∉ row.toList ∧ AreLines rows := List.forall_mem_cons

@[simp] theorem areLines_append {rows others : List String} :
    AreLines (rows ++ others) ↔ AreLines rows ∧ AreLines others := List.forall_mem_append

theorem areLines_flatMap {α : Type} {xs : List α} {rowsOf : α → List String} :
    AreLines (xs.flatMap rowsOf) ↔ ∀ x ∈ xs, AreLines (rowsOf x) := by
  simp only [AreLines, List.mem_flatMap]
  constructor
  · intro h x hx row hrow
    exact h row ⟨x, hx, hrow⟩
  · rintro h row ⟨x, hx, hrow⟩
    exact h x hx row hrow

theorem lineFeed_mem_padRight {width : Nat} {text : String} :
    '\n' ∈ (Text.padRight width text).toList ↔ '\n' ∈ text.toList := by
  simp [Text.padRight]

/-- No word has white space in it. -/
theorem Text.isBlank_of_mem_wordsOnto {cs : List Char} : ∀ {found : List (List Char)}
    {letters : List Char}, (∀ word ∈ found, ∀ c ∈ word, isBlank c = false) →
      (∀ c ∈ letters, isBlank c = false) →
      ∀ word ∈ wordsOnto found letters cs, ∀ c ∈ word, isBlank c = false := by
  induction cs with
  | nil =>
      intro found letters hfound hletters word hword
      rw [wordsOnto, List.mem_reverse] at hword
      split at hword
      · exact hfound word hword
      · rcases List.mem_cons.mp hword with rfl | hword
        · intro c hc
          exact hletters c (List.mem_reverse.mp hc)
        · exact hfound word hword
  | cons c cs ih =>
      intro found letters hfound hletters
      rw [wordsOnto]
      split
      · refine ih ?_ (by simp)
        split
        · exact hfound
        · refine List.forall_mem_cons.mpr ⟨?_, hfound⟩
          intro d hd
          exact hletters d (List.mem_reverse.mp hd)
      · next hblank =>
        refine ih hfound (List.forall_mem_cons.mpr ⟨?_, hletters⟩)
        exact Bool.eq_false_iff.mpr hblank

/-- A summary is one line. -/
theorem Symbol.lineFeed_not_mem_docSummary {x : Symbol} {summary : String}
    (h : x.docSummary? = some summary) : '\n' ∉ summary.toList := by
  have hwords : ∀ word ∈ x.docComment.elim [] DocComment.summaryWords, '\n' ∉ word.toList := by
    cases x.docComment with
    | none => exact fun word hword => absurd hword List.not_mem_nil
    | some comment =>
        intro word hword hmem
        obtain ⟨cs, hcs, rfl⟩ := List.mem_map.mp hword
        rw [String.toList_ofList] at hmem
        have hblank := Text.isBlank_of_mem_wordsOnto (by simp) (by simp) cs hcs '\n' hmem
        exact absurd hblank (by decide)
  unfold docSummary? at h
  split at h
  · cases h
  · next words _ =>
    cases h
    rw [String.toList_intercalate]
    refine Text.not_mem_intercalate (by decide) fun piece hpiece => ?_
    obtain ⟨word, hword, rfl⟩ := List.mem_map.mp hpiece
    exact hwords word hword

/-- The lines of a symbol of a scan are lines just if its signature is one. -/
theorem Symbol.areLines_listingRows {x : Symbol} (hx : x.InWords) :
    AreLines x.listingRows ↔ '\n' ∉ x.signature.toList := by
  have hscope : '\n' ∉
      (if x.path.isEmpty then "" else "  in " ++ String.intercalate "." x.path).toList := by
    split
    · exact List.not_mem_nil
    · rw [String.toList_append, String.toList_intercalate, List.mem_append, not_or]
      refine ⟨by decide, Text.not_mem_intercalate (by decide) fun piece hpiece => ?_⟩
      obtain ⟨segment, hsegment, rfl⟩ := List.mem_map.mp hpiece
      exact not_mem_of_segment (hx.path segment hsegment) (by decide)
  have hspan : '\n' ∉ x.span.shown.toList := by
    simp [Span.shown, lineFeed_not_mem_toDigits]
  have hkind : '\n' ∉ x.kind.name.toList := by
    cases x.kind <;> decide
  have hsummary : AreLines (x.docSummary?.map ("             " ++ ·)).toList := by
    cases hdoc : x.docSummary? with
    | none => exact areLines_nil
    | some summary => simp [lineFeed_not_mem_docSummary hdoc]
  rw [listingRows, areLines_cons]
  generalize (if x.path.isEmpty then "" else "  in " ++ String.intercalate "." x.path) = scope at *
  simp [hscope, hspan, hkind, hsummary, lineFeed_mem_padRight]

theorem Diagnostic.areLine_listingRow {d : Diagnostic} :
    '\n' ∉ d.listingRow.toList ↔ '\n' ∉ d.message.toList := by
  have hlabel : '\n' ∉ (severityLabel false d.severity).toList := by
    cases d.severity <;> decide
  have hkind : '\n' ∉ d.kind.name.toList := by
    cases d.kind <;> decide
  simp [listingRow, hlabel, hkind, lineFeed_mem_padRight, lineFeed_not_mem_toDigits]

/-- Of the texts of a file that is scanned, only these may have a line feed in them. -/
structure FileScan.OneLined (f : FileScan) : Prop where
  language : '\n' ∉ f.language.toList
  signatures : ∀ x ∈ f.result.symbols, '\n' ∉ x.signature.toList
  messages : ∀ d ∈ f.result.diagnostics, '\n' ∉ d.message.toList

theorem FileScan.areLines_listingRows {f : FileScan} (hwords : ∀ x ∈ f.result.symbols, x.InWords)
    (hpath : '\n' ∉ f.path.toList) : AreLines f.listingRows ↔ f.OneLined := by
  have hshown : '\n' ∉ f.shownPath.toList := Text.not_mem_replaceChar (by decide) hpath
  have hhead : AreLines ["  " ++ f.shownPath ++ " (" ++ f.language ++ ")"] ↔
      '\n' ∉ f.language.toList := by simp [hshown]
  have hdiagnostics : AreLines (f.result.diagnostics.map Diagnostic.listingRow) ↔
      ∀ d ∈ f.result.diagnostics, '\n' ∉ d.message.toList := by
    rw [AreLines, List.forall_mem_map]
    exact forall₂_congr fun d _ => d.areLine_listingRow
  have hsymbols : AreLines (f.result.symbols.flatMap Symbol.listingRows) ↔
      ∀ x ∈ f.result.symbols, '\n' ∉ x.signature.toList := by
    rw [areLines_flatMap]
    exact forall₂_congr fun x hx => Symbol.areLines_listingRows (hwords x hx)
  rw [listingRows, areLines_append, areLines_append, areLines_append, hhead, hsymbols, hdiagnostics]
  constructor
  · rintro ⟨⟨⟨hlanguage, hsignatures⟩, hmessages⟩, -⟩
    exact ⟨hlanguage, hsignatures, hmessages⟩
  · rintro ⟨hlanguage, hsignatures, hmessages⟩
    exact ⟨⟨⟨hlanguage, hsignatures⟩, hmessages⟩, by simp⟩

theorem areLines_listingRows {path : String} {scans : List FileScan}
    (hscans : ∀ f ∈ scans, ∃ g source, f.result = scan g source) (hpath : '\n' ∉ path.toList)
    (hpaths : ∀ f ∈ scans, '\n' ∉ f.path.toList) :
    AreLines (listingRows path scans) ↔ ∀ f ∈ scans, f.OneLined := by
  have hhead : AreLines ["", "  bracetag v" ++ version, "", "  Scanning: " ++ path, ""] := by
    have hversion : '\n' ∉ version.toList := by decide
    simp [hversion, hpath]
  have hlast : AreLines [String.ofList (summaryLine false scans).toList.dropLast, ""] := by
    obtain ⟨row, hrow, hline⟩ := summaryLine_eq scans
    simp [hrow, hline]
  have hfiles : AreLines (scans.flatMap FileScan.listingRows) ↔ ∀ f ∈ scans, f.OneLined := by
    rw [areLines_flatMap]
    refine forall₂_congr fun f hf => FileScan.areLines_listingRows (fun x hx => ?_) (hpaths f hf)
    obtain ⟨g, source, hresult⟩ := hscans f hf
    exact scan_inWords (hresult ▸ hx)
  rw [listingRows, areLines_append, areLines_append, hfiles]
  exact ⟨fun h => h.1.2, fun h => ⟨⟨hhead, h⟩, hlast⟩⟩

/-! ## Signatures and messages -/

theorem Symbol.lineFeed_mem_signature {x : Symbol} (hx : x.InWords) :
    '\n' ∈ x.signature.toList ↔
      x.kind.isCallable = true ∧ '\n' ∈ Text.trim x.parameterText.toList := by
  have hname : '\n' ∉ x.name.toList := hx.name.not_mem (by decide)
  have hmodifiers : ∀ word ∈ x.modifiers, '\n' ∉ word.toList := by
    intro word hword hmem
    rcases hx.modifiers word hword '\n' hmem with h | h
    · exact absurd h (by decide)
    · exact absurd h (by decide)
  -- of the pieces that are joined with spaces only the last one may hold a line feed
  have hlast : ∀ last : String, '\n' ∈ (String.intercalate " " (x.modifiers ++ [last])).toList ↔
      '\n' ∈ last.toList := by
    intro last
    rw [String.toList_intercalate, Text.mem_intercalate (by decide)]
    constructor
    · rintro ⟨piece, hpiece, hmem⟩
      obtain ⟨word, hword, rfl⟩ := List.mem_map.mp hpiece
      rcases List.mem_append.mp hword with hword | hword
      · exact absurd hmem (hmodifiers word hword)
      · rwa [List.mem_singleton.mp hword] at hmem
    · intro hmem
      exact ⟨last.toList, List.mem_map_of_mem (by simp), hmem⟩
  rw [signature, hlast]
  by_cases hk : x.kind.isCallable = true
  · simp [hk, hname]
  · simp [hk, hname]

/-- A run reads as a call because of one of its tokens. -/
theorem callReasonFrom_sound {g : Grammar} {depth : Nat} {inDefault : Bool} {run : List Token}
    {reason : CallReason} (h : callReasonFrom g depth inDefault run = some reason) :
    ∃ t ∈ run, (t.kind.isLiteral = true ∧ reason = .literal t.text) ∨
      (t.isKeyword = true ∧ reason = .construction t.text) := by
  induction run generalizing depth inDefault with
  | nil => cases h
  | cons t run ih =>
      have hrest : ∀ {depth : Nat} {inDefault : Bool},
          callReasonFrom g depth inDefault run = some reason →
          ∃ u ∈ t :: run, (u.kind.isLiteral = true ∧ reason = .literal u.text) ∨
            (u.isKeyword = true ∧ reason = .construction u.text) := by
        intro depth inDefault h
        obtain ⟨u, hu, hreason⟩ := ih h
        exact ⟨u, List.mem_cons_of_mem _ hu, hreason⟩
      rw [callReasonFrom] at h
      split at h
      · exact hrest h
      split at h
      · exact hrest h
      split at h
      · exact hrest h
      split at h
      · exact hrest h
      split at h
      · exact hrest h
      split at h
      · next hliteral =>
        rw [Bool.and_eq_true] at hliteral
        exact ⟨t, List.mem_cons_self, .inl ⟨hliteral.1, (Option.some.inj h).symm⟩⟩
      split at h
      · next hkeyword =>
        rw [Bool.and_eq_true] at hkeyword
        exact ⟨t, List.mem_cons_self, .inr ⟨hkeyword.1, (Option.some.inj h).symm⟩⟩
      · exact hrest h

/-- An ambiguity names a word of the run, and its reason is one of the tokens. -/
def AmbiguousIn (run : List Token) (name : String) (reason : CallReason) : Prop :=
  (∃ n ∈ run, n.isIdentifier = true ∧ name = n.text) ∧
    ∃ t ∈ run, (t.kind.isLiteral = true ∧ reason = .literal t.text) ∨
      (t.isKeyword = true ∧ reason = .construction t.text)

theorem AmbiguousIn.mono {run ts : List Token} {name : String} {reason : CallReason}
    (h : AmbiguousIn run name reason) (hsub : run ⊆ ts) : AmbiguousIn ts name reason := by
  obtain ⟨⟨n, hn, hname⟩, t, ht, hread⟩ := h
  exact ⟨⟨n, hsub hn, hname⟩, t, hsub ht, hread⟩

namespace Candidate

variable {g : Grammar} {source : String} {tracker : ScopeTracker} {c : Candidate}
  {run : List Token} {withBody : Bool} {name : String} {line : Nat} {reason : CallReason}

theorem callableDecision_ambiguous
    (h : c.callableDecision g source tracker withBody run = .ambiguous name line reason) :
    AmbiguousIn run name reason := by
  unfold callableDecision at h
  split at h
  · cases h
  next header hheader =>
  obtain ⟨s, chain, hrest, -, rfl⟩ := CallableHeader.ofRun?_shape hheader
  obtain ⟨clause, hrun, -⟩ := withoutTrailingClause?_sound hrest
  split at h
  · cases h
  split at h
  · next found hreason =>
    cases h
    obtain ⟨t, ht, hread⟩ := callReasonFrom_sound hreason
    have hgroup : t ∈ s.group := List.mem_of_mem_tail (List.mem_of_mem_dropLast ht)
    refine ⟨⟨s.name, ?_, s.name_identifier, rfl⟩, t, ?_, hread⟩
    · simp [hrun, CallableShape.tokens, CallableShape.call]
    · simp [hrun, CallableShape.tokens, CallableShape.call, hgroup]
  · cases h

theorem atBrace_ambiguous
    (h : c.atBrace g source tracker = .ambiguous name line reason) :
    AmbiguousIn c.tokens name reason := by
  rcases atBrace_cases g source tracker c with hd | ⟨-, -, hd | hd⟩
  · rw [h] at hd
    simp at hd
  · obtain ⟨header, -, hd⟩ := Option.map_eq_some_iff.mp hd
    rw [h] at hd
    cases hd
  · exact callableDecision_ambiguous (hd.symm.trans h)

theorem atSemicolon?_ambiguous
    (h : c.atSemicolon? g source tracker = some (.ambiguous name line reason)) :
    AmbiguousIn c.tokens name reason := by
  obtain ⟨-, -, hd⟩ := atSemicolon?_cases h
  obtain ⟨ending, htokens, -⟩ := c.member_sound g
  have hsub : (c.member g).1 ⊆ c.tokens := htokens ▸ List.subset_append_left _ _
  exact (callableDecision_ambiguous hd.symm).mono hsub

end Candidate

/-- The diagnostic is an ambiguity that quotes a literal with a line feed in it. -/
def Diagnostic.QuotesLineFeed (ts : List Token) (d : Diagnostic) : Prop :=
  ∃ name line, ∃ t ∈ ts, t.kind.isLiteral = true ∧ '\n' ∈ t.text.toList ∧
    d = .ofKind .ambiguity line (Scan.ambiguityMessage name (.literal t.text))

namespace Scan

variable {g : Grammar} {source : String} {ts : List Token} {t : Token} {d : Diagnostic}

/-- The fixed parts of messages are on one line. -/
theorem lineFeed_not_mem_fixed :
    ∀ text ∈ ["'", "' read as a call, not a declaration: ", "argument ",
    " is a literal", "argument constructs an object with '", "unmatched closing brace at line ",
    "end of input with ", " unclosed scope(s); innermost opened at line ", openCommentMessage,
    openLiteralMessage .stringLiteral, openLiteralMessage .charLiteral, openParenMessage],
    '\n' ∉ text.toList := by decide +kernel

/-- An ambiguity holds a line feed only if it quotes one. -/
theorem quotesLineFeed_of_ambiguous (hts : WordsIn ts) {name : String} {line : Nat}
    {reason : CallReason} (h : AmbiguousIn ts name reason)
    (hmem : '\n' ∈ (ambiguityMessage name reason).toList) :
    (Diagnostic.ofKind .ambiguity line (ambiguityMessage name reason)).QuotesLineFeed ts := by
  obtain ⟨⟨n, hn, hidentifier, rfl⟩, t, ht, hreason⟩ := h
  have hname : '\n' ∉ n.text.toList :=
    (hts n hn (Token.isWord_of_isIdentifier hidentifier)).not_mem (by decide)
  have hfixed := lineFeed_not_mem_fixed
  rw [ambiguityMessage, String.toList_append, List.mem_append, String.toList_append,
    List.mem_append, String.toList_append, List.mem_append] at hmem
  have hreasonMem : '\n' ∈ reason.message.toList := by
    rcases hmem with ((hmem | hmem) | hmem) | hmem
    · exact absurd hmem (hfixed _ (by simp))
    · exact absurd hmem hname
    · exact absurd hmem (hfixed _ (by simp))
    · exact hmem
  rcases hreason with ⟨hliteral, rfl⟩ | ⟨hkeyword, rfl⟩
  · refine ⟨n.text, line, t, ht, hliteral, ?_, rfl⟩
    have hparts : '\n' ∈ ("argument " ++ t.text ++ " is a literal").toList := hreasonMem
    rw [String.toList_append, List.mem_append, String.toList_append, List.mem_append] at hparts
    rcases hparts with (hmem | hmem) | hmem
    · exact absurd hmem (hfixed _ (by simp))
    · exact hmem
    · exact absurd hmem (hfixed _ (by simp))
  · have hword : '\n' ∉ t.text.toList :=
      (hts t ht (Token.isWord_of_isKeyword hkeyword)).not_mem (by decide)
    have hparts : '\n' ∈ ("argument constructs an object with '" ++ t.text ++ "'").toList :=
      hreasonMem
    rw [String.toList_append, List.mem_append, String.toList_append, List.mem_append] at hparts
    rcases hparts with (hmem | hmem) | hmem
    · exact absurd hmem (hfixed _ (by simp))
    · exact absurd hmem hword
    · exact absurd hmem (hfixed _ (by simp))

theorem lineFeed_not_mem_openEnd (h : openEnd? t = some d) : '\n' ∉ d.message.toList := by
  unfold openEnd? at h
  split at h
  · cases h
  split at h
  · cases h
    exact lineFeed_not_mem_fixed openCommentMessage (by simp)
  · next hkind =>
    cases h
    rw [hkind]
    exact lineFeed_not_mem_fixed (openLiteralMessage .stringLiteral) (by simp)
  · next hkind =>
    cases h
    rw [hkind]
    exact lineFeed_not_mem_fixed (openLiteralMessage .charLiteral) (by simp)
  · cases h

theorem lineFeed_not_mem_endReport {endLine : Nat} (h : endReport? endLine ts = some d) :
    '\n' ∉ d.message.toList := by
  unfold endReport? at h
  split at h
  · next innermost _ =>
    cases h
    show '\n' ∉ ("end of input with " ++ toString (unclosed ts).length ++
      " unclosed scope(s); innermost opened at line " ++ toString innermost.1.line).toList
    rw [String.toList_append, String.toList_append, String.toList_append, Decimals.toList_toString,
      Decimals.toList_toString, List.mem_append, List.mem_append, List.mem_append]
    rintro (((hmem | hmem) | hmem) | hmem)
    · exact lineFeed_not_mem_fixed _ (by simp) hmem
    · exact lineFeed_not_mem_toDigits _ hmem
    · exact lineFeed_not_mem_fixed _ (by simp) hmem
    · exact lineFeed_not_mem_toDigits _ hmem
  · split at h
    · cases h
      exact lineFeed_not_mem_fixed openParenMessage (by simp)
    · cases h

/-- What is reported at a token holds a line feed only if it quotes one. -/
theorem notice?_quotesLineFeed (hts : WordsIn ts)
    (h : (run g source ts {}).notice? g source t = some d) (hmem : '\n' ∈ d.message.toList) :
    d.QuotesLineFeed ts := by
  have hheld : (run g source ts {}).recognizer.candidate.tokens ⊆ ts := candidate_tokens_subset ts
  unfold notice? at h
  split at h
  · split at h
    · cases h
      have hparts : '\n' ∈ ("unmatched closing brace at line " ++ toString t.line).toList := hmem
      rw [String.toList_append, Decimals.toList_toString, List.mem_append] at hparts
      rcases hparts with hmem | hmem
      · exact absurd hmem (lineFeed_not_mem_fixed _ (by simp))
      · exact absurd hmem (lineFeed_not_mem_toDigits _)
    · cases h
  split at h
  · next decision hdecision =>
    cases decision with
    | ambiguous name line reason =>
        cases h
        have hambiguous : AmbiguousIn (run g source ts {}).recognizer.candidate.tokens name
            reason := by
          rcases decision?_cases hdecision with ⟨-, hd⟩ | ⟨-, -, hd⟩
          · exact Candidate.atBrace_ambiguous hd.symm
          · exact Candidate.atSemicolon?_ambiguous hd
        exact quotesLineFeed_of_ambiguous hts (hambiguous.mono hheld) hmem
    | _ => cases h
  · exact absurd hmem (lineFeed_not_mem_openEnd h)

/-- What is reported is reported at one of the tokens. -/
theorem exists_of_mem_notices {s : Scan} (h : d ∈ notices g source ts s) :
    ∃ before t after, ts = before ++ t :: after ∧
      (run g source before s).notice? g source t = some d := by
  induction ts generalizing s with
  | nil => cases h
  | cons t ts ih =>
      rcases List.mem_append.mp h with h | h
      · exact ⟨[], t, ts, rfl, Option.mem_toList.mp h⟩
      · obtain ⟨before, u, after, rfl, hnotice⟩ := ih h
        exact ⟨t :: before, u, after, rfl, hnotice⟩

end Scan

/-- A message of a scan holds a line feed just if it is that of an ambiguity and quotes one. -/
theorem scan_lineFeed_mem_message {g : Grammar} {source : List Char} {d : Diagnostic}
    (hd : d ∈ (scan g source).diagnostics) :
    '\n' ∈ d.message.toList ↔ d.QuotesLineFeed (tokensOf g source) := by
  constructor
  · intro hmem
    obtain ⟨endLine, hall, -⟩ := scan_diagnostics g source
    rw [hall, List.mem_append] at hd
    rcases hd with hd | hd
    · obtain ⟨before, t, after, hts, hnotice⟩ := Scan.exists_of_mem_notices hd
      have hsub : before ⊆ tokensOf g source := hts ▸ List.subset_append_left _ _
      have hwords : WordsIn before := fun u hu hw => isWord_of_mem (hsub hu) hw
      obtain ⟨name, line, u, hu, hrest⟩ := Scan.notice?_quotesLineFeed hwords hnotice hmem
      exact ⟨name, line, u, hsub hu, hrest⟩
    · exact absurd hmem (Scan.lineFeed_not_mem_endReport (Option.mem_toList.mp hd))
  · rintro ⟨name, line, t, -, -, hmem, rfl⟩
    show '\n' ∈ (Scan.ambiguityMessage name (.literal t.text)).toList
    have hreason : '\n' ∈ ("argument " ++ t.text ++ " is a literal").toList := by
      rw [String.toList_append, String.toList_append]
      exact List.mem_append_left _ (List.mem_append_right _ hmem)
    rw [Scan.ambiguityMessage, String.toList_append]
    exact List.mem_append_right _ hreason

/-- **The lines of a listing.** For scans of sources, with no line feed in a path, a listing without
colours has the lines that it is meant to have (five at the beginning, those of each file, and two
at the end) just if no language, signature or message has a line feed in it; then it is made of
these lines. A signature has one just if it is that of a method or constructor with one in the text
of its parameters, blanks at its ends aside; a message just if it is that of an ambiguity which
quotes a literal with one. -/
theorem listing_lines_iff {path : String} {scans : List FileScan}
    (hscans : ∀ f ∈ scans, ∃ g source, f.result = scan g source) (hpath : '\n' ∉ path.toList)
    (hpaths : ∀ f ∈ scans, '\n' ∉ f.path.toList) :
    let text := (listingText false path scans).toList
    (text.count '\n' = 5 + (scans.map FileScan.listingLines).sum + 2 ↔
      ∀ f ∈ scans, f.OneLined) ∧
    ((∀ f ∈ scans, f.OneLined) →
      Text.splitOn '\n' text = (listingRows path scans).map String.toList ++ [[]]) ∧
    ∀ f ∈ scans,
      (∀ x ∈ f.result.symbols, '\n' ∈ x.signature.toList ↔
        x.kind.isCallable = true ∧ '\n' ∈ Text.trim x.parameterText.toList) ∧
      ∀ g source, f.result = scan g source → ∀ d ∈ f.result.diagnostics,
        ('\n' ∈ d.message.toList ↔ d.QuotesLineFeed (tokensOf g source)) := by
  intro text
  have hlines := areLines_listingRows hscans hpath hpaths
  have htext : text = ((listingRows path scans).map String.toList).flatMap (· ++ ['\n']) := by
    rw [show text = _ from toList_listingText path scans, textOf, List.flatMap_map]
  refine ⟨?count, ?rows, fun f hf => ⟨fun x hx => ?_, fun g source hresult d hd => ?_⟩⟩
  case count =>
    rw [htext, ← length_listingRows path scans, ← hlines, AreLines,
      ← List.length_map String.toList, Text.count_rows_eq_length_iff, List.forall_mem_map]
  case rows =>
    intro hone
    have hrows : ∀ row ∈ (listingRows path scans).map String.toList, '\n' ∉ row :=
      List.forall_mem_map.mpr (hlines.mpr hone)
    have hsplit := Text.splitOn_rows hrows []
    rw [List.append_nil] at hsplit
    rw [htext, hsplit]
    rfl
  · obtain ⟨g, source, hresult⟩ := hscans f hf
    exact Symbol.lineFeed_mem_signature (scan_inWords (hresult ▸ hx))
  · rw [hresult] at hd
    exact scan_lineFeed_mem_message hd

/-- A string over two lines, in parentheses that may be those of a call or of a method. -/
theorem listing_lines_iff_of_string :
    let source := "class A \x7b B f(\"a\\\nb\") \x7b \x7d \x7d".toList
    let f : FileScan := ⟨"A.java", "java", scan (.ofProfile .java) source⟩
    '\n' ∉ ".".toList ∧ '\n' ∉ f.path.toList ∧
      (∃ d ∈ f.result.diagnostics, d.QuotesLineFeed (tokensOf (.ofProfile .java) source)) ∧
      (listingText false "." [f]).toList.count '\n' ≠ 5 + f.listingLines + 2 := by
  intro source f
  have hpath : '\n' ∉ ".".toList := by decide
  have hpaths : '\n' ∉ f.path.toList := by
    show '\n' ∉ "A.java".toList
    decide
  have hscans : ∀ e ∈ [f], ∃ g source, e.result = scan g source := by simp [f]
  obtain ⟨hcount, -, heach⟩ := listing_lines_iff hscans hpath (by simpa using hpaths)
  let d : Diagnostic := .ofKind .ambiguity 1
    (Scan.ambiguityMessage "f" (.literal "\"a\\\nb\""))
  have hd : d ∈ f.result.diagnostics := by
    show d ∈ (scan (.ofProfile .java) source).diagnostics
    decide +kernel
  have hmem : '\n' ∈ d.message.toList := by
    show '\n' ∈ (Scan.ambiguityMessage "f" (.literal "\"a\\\nb\"")).toList
    decide +kernel
  refine ⟨hpath, hpaths, ⟨d, hd, ?_⟩, ?_⟩
  · exact ((heach f List.mem_cons_self).2 _ source rfl d hd).mp hmem
  · intro hlines
    have hone := hcount.mp (by simpa using hlines)
    exact (hone f List.mem_cons_self).messages d hd hmem

/-- **A signature may take two lines**, and with it a listing one more than it is meant to have. -/
theorem signature_on_two_lines :
    let source := "class A \x7b void f(int a,\n int b) \x7b \x7d \x7d".toList
    let f : FileScan := ⟨"A.java", "java", scan (.ofProfile .java) source⟩
    f.result.symbols.map Symbol.signature = ["f(int a,\n int b)"] ∧
      (listingText false "." [f]).toList.count '\n' = 5 + f.listingLines + 2 + 1 := by
  intro source f
  constructor
  · decide +kernel
  · decide +kernel

end DeclTags
