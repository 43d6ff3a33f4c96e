import DeclTags.Json.Printer
import DeclTags.Json.Record

set_option autoImplicit false

/-! # Reports as documents

The scans of some files as one JSON document, with the sums of their symbols and diagnostics. -/

namespace DeclTags

/-- The version that reports carry. -/
def version : String := "0.1.0"

/-- The path of a scan as it is shown, with slashes between its parts. -/
def FileScan.shownPath (f : FileScan) : String := Text.replaceChar '\\' '/' f.path

/-- A file in a report. -/
structure FileReport where
  path : String
  language : String
  symbols : List Symbol
  diagnostics : List Diagnostic
  stats : ScopeStats
  deriving DecidableEq, Repr, Inhabited

namespace FileReport

def ofScan (f : FileScan) : FileReport :=
  ⟨f.shownPath, f.language, f.result.symbols, f.result.diagnostics, f.result.stats⟩

def toJson (f : FileReport) : Json :=
  .object [("path", .string f.path), ("language", .string f.language),
    ("symbols", .list (f.symbols.map Symbol.toJson)),
    ("diagnostics", .list (f.diagnostics.map Diagnostic.toJson)), ("stats", f.stats.toJson)]

def ofJson? (j : Json) : Option FileReport := do
  let fields ← Json.recordFields? ["path", "language", "symbols", "diagnostics", "stats"] j
  return {
    path := ← Json.required Json.string? "path" fields
    language := ← Json.required Json.string? "language" fields
    symbols := ← Json.required (Json.listOf? Symbol.ofJson?) "symbols" fields
    diagnostics := ← Json.required (Json.listOf? Diagnostic.ofJson?) "diagnostics" fields
    stats := ← Json.required ScopeStats.ofJson? "stats" fields }

end FileReport

structure Report where
  version : String
  files : List FileReport
  symbolCount : Nat
  diagnosticCount : Nat
  deriving DecidableEq, Repr, Inhabited

namespace Report

/-- The number of symbols in some scans. -/
def symbolTotal (scans : List FileScan) : Nat :=
  scans.foldr (fun f n => f.result.symbols.length + n) 0

/-- The number of diagnostics in some scans. -/
def diagnosticTotal (scans : List FileScan) : Nat :=
  scans.foldr (fun f n => f.result.diagnostics.length + n) 0

/-- The report on some scans, in their order. -/
def ofScans (scans : List FileScan) : Report where
  version := DeclTags.version
  files := scans.map FileReport.ofScan
  symbolCount := symbolTotal scans
  diagnosticCount := diagnosticTotal scans

def toJson (r : Report) : Json :=
  .object [("version", .string r.version), ("files", .list (r.files.map FileReport.toJson)),
    ("symbol_count", .nat r.symbolCount), ("diagnostic_count", .nat r.diagnosticCount)]

def ofJson? (j : Json) : Option Report := do
  let fields ← Json.recordFields? ["version", "files", "symbol_count", "diagnostic_count"] j
  return {
    version := ← Json.required Json.string? "version" fields
    files := ← Json.required (Json.listOf? FileReport.ofJson?) "files" fields
    symbolCount := ← Json.required Json.count? "symbol_count" fields
    diagnosticCount := ← Json.required Json.count? "diagnostic_count" fields }

/-- The text of the document. -/
def text (r : Report) : String := r.toJson.pretty ++ "\n"

end Report

end DeclTags
