import DeclTags.Proofs.JsonTexts
import DeclTags.Report
import Mathlib.Data.List.Forall2

set_option autoImplicit false

/-! # Documents lose nothing

A document is read back as the report that it was written from (`json_report_decodes`). Nothing in
it depends on the texts that are reported: quotes, line ends and control characters come back as
they were, and so does a doc comment, whether it is absent, empty or neither.

Each record writes its fields under the names that it reads them from, so one equation a record is
enough, in the order of the records. Counts are in range (`FileScan.InRange`), as every count of a
program is.
-/

namespace DeclTags

open Json

/-! ## Counts in range -/

namespace Json

theorem count?_nat {n : Nat} (h : n < countLimit) : count? (.nat n) = some n := if_pos h

end Json

structure Span.InRange (s : Span) : Prop where
  startByte : s.startByte < countLimit
  endByte : s.endByte < countLimit
  line : s.line < countLimit
  column : s.column < countLimit

structure Symbol.InRange (s : Symbol) : Prop where
  startLine : s.startLine < countLimit
  span : s.span.InRange

structure ScopeStats.InRange (s : ScopeStats) : Prop where
  pushed : s.pushed < countLimit
  popped : s.popped < countLimit
  forceClosed : s.forceClosed < countLimit
  maxDepth : s.maxDepth < countLimit

/-- Every count of the scan can be held. -/
structure FileScan.InRange (f : FileScan) : Prop where
  symbols : ∀ s ∈ f.result.symbols, s.InRange
  diagnostics : ∀ d ∈ f.result.diagnostics, d.line < countLimit
  stats : f.result.stats.InRange

/-- Every count of a report on the scans can be held, the sums included. -/
structure Report.InRange (scans : List FileScan) : Prop where
  files : ∀ f ∈ scans, f.InRange
  symbolTotal : Report.symbolTotal scans < countLimit
  diagnosticTotal : Report.diagnosticTotal scans < countLimit

/-! ## Fields and lists -/

namespace Json

variable {α : Type} {read : Json → Option α}

@[simp] theorem required_cons_self (name : String) (j : Json) (fields : List (String × Json)) :
    required read name ((name, j) :: fields) = read j := by
  rw [required, List.lookup_cons_self]
  rfl

@[simp] theorem required_cons_of_ne {name other : String} (h : name ≠ other) (j : Json)
    (fields : List (String × Json)) :
    required read name ((other, j) :: fields) = required read name fields := by
  rw [required, List.lookup_cons, beq_false_of_ne h]
  rfl

@[simp] theorem withDefault_nil (default : α) (name : String) :
    withDefault default read name [] = some default := rfl

@[simp] theorem withDefault_cons_self (default : α) (name : String) (j : Json)
    (fields : List (String × Json)) :
    withDefault default read name ((name, j) :: fields) = read j := by
  rw [withDefault, List.lookup_cons_self]

@[simp] theorem withDefault_cons_of_ne (default : α) {name other : String} (h : name ≠ other)
    (j : Json) (fields : List (String × Json)) :
    withDefault default read name ((other, j) :: fields)
      = withDefault default read name fields := by
  rw [withDefault, List.lookup_cons, beq_false_of_ne h]
  rfl

theorem listOf?_map {toJson : α → Json} {xs : List α} (h : ∀ x ∈ xs, read (toJson x) = some x) :
    listOf? read (.list (xs.map toJson)) = some xs := by
  rw [listOf?, list?, Option.bind_some]
  induction xs with
  | nil => rfl
  | cons x xs ih =>
      rw [List.map_cons, List.mapM_cons, h x List.mem_cons_self,
        ih fun y hy => h y (List.mem_cons_of_mem _ hy)]
      rfl

@[simp] theorem strings?_ofStrings (texts : List String) :
    strings? (ofStrings texts) = some texts :=
  listOf?_map fun _ _ => rfl

theorem exact_map {toJson : α → Json} {xs : List α} (h : ∀ x ∈ xs, Exact (toJson x)) :
    Exact (.list (xs.map toJson)) := by
  apply Exact.list
  intro j hj
  obtain ⟨x, hx, rfl⟩ := List.mem_map.mp hj
  exact h x hx

theorem exact_ofStrings (texts : List String) : Exact (ofStrings texts) :=
  exact_map fun text _ => .string text

end Json

/-! ## Records -/

theorem SymbolKind.ofName?_name (kind : SymbolKind) : ofName? kind.name = some kind := by
  cases kind <;> decide

theorem Severity.ofName?_name (severity : Severity) : ofName? severity.name = some severity := by
  cases severity <;> decide

theorem Span.ofJson?_toJson {s : Span} (h : s.InRange) : Span.ofJson? s.toJson = some s := by
  simp only [ofJson?, toJson, recordFields?, Option.bind_eq_bind, Option.bind_some,
    required_cons_self, required_cons_of_ne, ne_eq, String.reduceEq, not_false_eq_true,
    count?_nat h.startByte, count?_nat h.endByte, count?_nat h.line, count?_nat h.column]
  rfl

theorem Symbol.ofJson?_toJson {s : Symbol} (h : s.InRange) : Symbol.ofJson? s.toJson = some s := by
  obtain ⟨name, kind, modifiers, parameterText, startLine, span, path, doc⟩ := s
  cases doc with
  | none =>
      simp only [ofJson?, toJson, recordFields?, Option.bind_eq_bind, Option.bind_some,
        Option.toList_none, List.map_nil, List.append_nil, required_cons_self, required_cons_of_ne,
        withDefault_cons_of_ne, withDefault_nil, ne_eq, String.reduceEq, not_false_eq_true, string?,
        name?, SymbolKind.ofName?_name, strings?_ofStrings, count?_nat h.startLine,
        Span.ofJson?_toJson h.span]
      rfl
  | some doc =>
      simp only [ofJson?, toJson, recordFields?, Option.bind_eq_bind, Option.bind_some,
        Option.toList_some, List.map_cons, List.map_nil, List.cons_append, List.nil_append,
        required_cons_self, required_cons_of_ne, withDefault_cons_of_ne, withDefault_cons_self,
        ne_eq, String.reduceEq, not_false_eq_true, string?, nullable?, Option.map_some, name?,
        SymbolKind.ofName?_name, strings?_ofStrings, count?_nat h.startLine,
        Span.ofJson?_toJson h.span]
      rfl

theorem Diagnostic.ofJson?_toJson {d : Diagnostic} (h : d.line < countLimit) :
    Diagnostic.ofJson? d.toJson = some d := by
  simp only [ofJson?, toJson, recordFields?, Option.bind_eq_bind, Option.bind_some,
    required_cons_self, required_cons_of_ne, ne_eq, String.reduceEq, not_false_eq_true, string?,
    name?, DiagnosticKind.ofName?_name, Severity.ofName?_name, count?_nat h]
  rfl

theorem ScopeStats.ofJson?_toJson {s : ScopeStats} (h : s.InRange) :
    ScopeStats.ofJson? s.toJson = some s := by
  simp only [ofJson?, toJson, recordFields?, Option.bind_eq_bind, Option.bind_some,
    required_cons_self, required_cons_of_ne, ne_eq, String.reduceEq, not_false_eq_true,
    count?_nat h.pushed, count?_nat h.popped, count?_nat h.forceClosed, count?_nat h.maxDepth]
  rfl

theorem FileReport.ofJson?_toJson {f : FileScan} (h : f.InRange) :
    FileReport.ofJson? (FileReport.ofScan f).toJson = some (.ofScan f) := by
  have hsymbols := listOf?_map fun s hs => Symbol.ofJson?_toJson (h.symbols s hs)
  have hdiagnostics := listOf?_map fun d hd => Diagnostic.ofJson?_toJson (h.diagnostics d hd)
  simp only [ofJson?, toJson, ofScan, recordFields?, Option.bind_eq_bind, Option.bind_some,
    required_cons_self, required_cons_of_ne, ne_eq, String.reduceEq, not_false_eq_true, string?,
    hsymbols, hdiagnostics, ScopeStats.ofJson?_toJson h.stats]
  rfl

/-! ## Numbers are counts -/

theorem Span.exact_toJson (s : Span) : s.toJson.Exact := by
  apply Exact.object
  simp [Exact.nat]

theorem Symbol.exact_toJson (s : Symbol) : s.toJson.Exact := by
  apply Exact.object
  intro field hfield
  rcases List.mem_append.mp hfield with hfield | hfield
  · simp only [List.mem_cons, List.not_mem_nil, or_false] at hfield
    rcases hfield with rfl | rfl | rfl | rfl | rfl | rfl | rfl
    · exact .string _
    · exact .string _
    · exact exact_ofStrings _
    · exact .string _
    · exact .nat _
    · exact s.span.exact_toJson
    · exact exact_ofStrings _
  · obtain ⟨doc, -, rfl⟩ := List.mem_map.mp hfield
    exact .string doc

theorem Diagnostic.exact_toJson (d : Diagnostic) : d.toJson.Exact := by
  apply Exact.object
  simp [Exact.nat, Exact.string]

theorem ScopeStats.exact_toJson (s : ScopeStats) : s.toJson.Exact := by
  apply Exact.object
  simp [Exact.nat]

theorem FileReport.exact_toJson (f : FileReport) : f.toJson.Exact := by
  apply Exact.object
  simp only [List.mem_cons, List.not_mem_nil, or_false, forall_eq_or_imp, forall_eq]
  exact ⟨.string _, .string _, exact_map fun s _ => s.exact_toJson,
    exact_map fun d _ => d.exact_toJson, f.stats.exact_toJson⟩

theorem Report.exact_toJson (r : Report) : r.toJson.Exact := by
  apply Exact.object
  simp only [List.mem_cons, List.not_mem_nil, or_false, forall_eq_or_imp, forall_eq]
  exact ⟨.string _, exact_map fun f _ => f.exact_toJson, .nat _, .nat _⟩

/-! ## Reports -/

/-- What a report tells of a file: its path with slashes, and of its scan everything. -/
structure FileReport.IsOf (e : FileReport) (f : FileScan) : Prop where
  path : e.path = String.ofList (f.path.toList.map fun c => if c = '\\' then '/' else c)
  language : e.language = f.language
  symbols : e.symbols = f.result.symbols
  diagnostics : e.diagnostics = f.result.diagnostics
  stats : e.stats = f.result.stats

/-- What a report tells of some scans: each of them, in their order, and the sums. -/
structure Report.IsOf (r : Report) (scans : List FileScan) : Prop where
  version : r.version = DeclTags.version
  files : List.Forall₂ FileReport.IsOf r.files scans
  symbolCount : r.symbolCount = (scans.map fun f => f.result.symbols.length).sum
  diagnosticCount : r.diagnosticCount = (scans.map fun f => f.result.diagnostics.length).sum

theorem Report.symbolTotal_eq (scans : List FileScan) :
    symbolTotal scans = (scans.map fun f => f.result.symbols.length).sum := by
  rw [symbolTotal, List.sum, List.foldr_map]

theorem Report.diagnosticTotal_eq (scans : List FileScan) :
    diagnosticTotal scans = (scans.map fun f => f.result.diagnostics.length).sum := by
  rw [diagnosticTotal, List.sum, List.foldr_map]

theorem Report.isOf_ofScans (scans : List FileScan) : (Report.ofScans scans).IsOf scans where
  version := rfl
  files := by
    rw [ofScans, List.forall₂_map_left_iff]
    apply List.forall₂_same.mpr
    intro f _
    exact ⟨rfl, rfl, rfl, rfl, rfl⟩
  symbolCount := symbolTotal_eq scans
  diagnosticCount := diagnosticTotal_eq scans

theorem Report.ofJson?_toJson {scans : List FileScan} (h : Report.InRange scans) :
    Report.ofJson? (Report.ofScans scans).toJson = some (.ofScans scans) := by
  have hfiles : listOf? FileReport.ofJson?
      (.list ((Report.ofScans scans).files.map FileReport.toJson)) =
      some (Report.ofScans scans).files := by
    apply listOf?_map
    intro e he
    obtain ⟨f, hf, rfl⟩ := List.mem_map.mp he
    exact FileReport.ofJson?_toJson (h.files f hf)
  simp only [ofJson?, toJson, recordFields?, Option.bind_eq_bind, Option.bind_some,
    required_cons_self, required_cons_of_ne, ne_eq, String.reduceEq, not_false_eq_true, string?,
    hfiles]
  rw [count?_nat (n := (ofScans scans).symbolCount) h.symbolTotal,
    count?_nat (n := (ofScans scans).diagnosticCount) h.diagnosticTotal]
  rfl

/-- **Documents lose nothing.** The JSON document on some scans is read back as the report on them,
which tells all that was found in each file, in the order of the files, and the sums. -/
theorem json_report_decodes {scans : List FileScan} (h : Report.InRange scans) (colour : Bool)
    (path : String) :
    ∃ r : Report,
      (Json.parse? (ReportFormat.json.render colour path scans)).bind Report.ofJson? = some r ∧
      r = Report.ofScans scans ∧ r.IsOf scans := by
  refine ⟨.ofScans scans, ?_, rfl, Report.isOf_ofScans scans⟩
  have hend : AllSpace ['\n'] := by
    intro c hc
    rw [List.mem_singleton.mp hc]
    decide
  have hparse := parse?_pretty (Report.ofScans scans).exact_toJson hend
  rw [ReportFormat.render, Report.text]
  exact (congrArg (Option.bind · Report.ofJson?) hparse).trans (Report.ofJson?_toJson h)

/-- A scan whose texts hold a quote, a backslash, control characters and an empty comment. -/
def escapedScan : FileScan where
  path := "a\\b \"c\".java"
  language := "ja\x00va"
  result := {
    symbols := [
      { name := "f", kind := .method, modifiers := ["public"],
        parameterText := "int x,\n\t\"y\\", startLine := 1, span := ⟨7, 8, 1, 8⟩,
        path := ["A", "<anonymous>"], docComment := some "" },
      { name := "é", kind := .type, modifiers := [], parameterText := "", startLine := 2,
        span := ⟨30, 32, 2, 4⟩, path := [] }]
    diagnostics := [.ofKind .ambiguity 2 "argument \"\x1b\\n\" is a literal"]
    stats := ⟨3, 2, 1, 2⟩ }

theorem json_report_decodes_escaped :
    Report.InRange [escapedScan] ∧ ∃ r : Report,
      (Json.parse? (ReportFormat.json.render false "." [escapedScan])).bind Report.ofJson? =
        some r ∧ r = Report.ofScans [escapedScan] ∧ r.IsOf [escapedScan] := by
  have h : Report.InRange [escapedScan] := by
    refine ⟨?_, by decide, by decide⟩
    intro f hf
    rw [List.mem_singleton.mp hf]
    refine ⟨?_, by decide, ⟨by decide, by decide, by decide, by decide⟩⟩
    intro s hs
    simp only [escapedScan, List.mem_cons, List.not_mem_nil, or_false] at hs
    rcases hs with rfl | rfl <;>
      exact ⟨by decide, ⟨by decide, by decide, by decide, by decide⟩⟩
  exact ⟨h, json_report_decodes h false "."⟩

end DeclTags
