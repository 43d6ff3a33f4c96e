import DeclTags.FileScan
import DeclTags.Json.Basic

set_option autoImplicit false

/-! # Records as JSON

The JSON forms of symbols, diagnostics, scans and profiles, and how they are read back. A field
that is not known is passed over when a record is read, a list of values is taken for the fields in
their order, and a field with a default may be missing. -/

namespace DeclTags

/-! ## Reading fields -/

namespace Json

/-- The fields of a record with the field names `names`. -/
def recordFields? (names : List String) : Json → Option (List (String × Json))
  | .object fields => some fields
  | .list items => if items.length ≤ names.length then some (names.zip items) else none
  | _ => none

/-- A field that has to be there. -/
def required {α : Type} (read : Json → Option α) (name : String) (fields : List (String × Json)) :
    Option α :=
  (fields.lookup name).bind read

/-- A field with a default. -/
def withDefault {α : Type} (default : α) (read : Json → Option α) (name : String)
    (fields : List (String × Json)) : Option α :=
  match fields.lookup name with
  | none => some default
  | some j => read j

/-- A name of a fixed set: the name alone, or an object with that name for its one field, which is
null. -/
def name? : Json → Option String
  | .string s => some s
  | .object [(name, .null)] => some name
  | _ => none

/-- A count, in range. -/
def count? : Json → Option Nat
  | .nat n => if n < countLimit then some n else none
  | _ => none

end Json

open Json

/-! ## Symbols -/

namespace Span

def toJson (s : Span) : Json :=
  .object [("start_byte", .nat s.startByte), ("end_byte", .nat s.endByte), ("line", .nat s.line),
    ("column", .nat s.column)]

def ofJson? (j : Json) : Option Span := do
  let fields ← recordFields? ["start_byte", "end_byte", "line", "column"] j
  return {
    startByte := ← required count? "start_byte" fields
    endByte := ← required count? "end_byte" fields
    line := ← required count? "line" fields
    column := ← required count? "column" fields }

end Span

namespace Symbol

def fieldNames : List String :=
  ["name", "kind", "modifiers", "parameter_list_text", "start_line", "span",
    "enclosing_scope_path", "doc_comment"]

/-- The symbol as an object; without a doc comment it has no field for one. -/
def toJson (s : Symbol) : Json :=
  .object <|
    [("name", .string s.name), ("kind", .string s.kind.name),
      ("modifiers", .ofStrings s.modifiers), ("parameter_list_text", .string s.parameterText),
      ("start_line", .nat s.startLine), ("span", s.span.toJson),
      ("enclosing_scope_path", .ofStrings s.path)] ++
    s.docComment.toList.map fun doc => ("doc_comment", .string doc)

def ofJson? (j : Json) : Option Symbol := do
  let fields ← recordFields? fieldNames j
  return {
    name := ← required string? "name" fields
    kind := ← required (fun j => j.name?.bind SymbolKind.ofName?) "kind" fields
    modifiers := ← required strings? "modifiers" fields
    parameterText := ← required string? "parameter_list_text" fields
    startLine := ← required count? "start_line" fields
    span := ← required Span.ofJson? "span" fields
    path := ← required strings? "enclosing_scope_path" fields
    docComment := ← withDefault none (nullable? string?) "doc_comment" fields }

end Symbol

/-! ## Scans -/

namespace Diagnostic

def toJson (d : Diagnostic) : Json :=
  .object [("kind", .string d.kind.name), ("message", .string d.message), ("line", .nat d.line),
    ("severity", .string d.severity.name)]

def ofJson? (j : Json) : Option Diagnostic := do
  let fields ← recordFields? ["kind", "message", "line", "severity"] j
  return {
    kind := ← required (fun j => j.name?.bind DiagnosticKind.ofName?) "kind" fields
    message := ← required string? "message" fields
    line := ← required count? "line" fields
    severity := ← required (fun j => j.name?.bind Severity.ofName?) "severity" fields }

end Diagnostic

namespace ScopeStats

def toJson (s : ScopeStats) : Json :=
  .object [("pushed", .nat s.pushed), ("popped", .nat s.popped),
    ("force_closed", .nat s.forceClosed), ("max_depth", .nat s.maxDepth)]

def ofJson? (j : Json) : Option ScopeStats := do
  let fields ← recordFields? ["pushed", "popped", "force_closed", "max_depth"] j
  return {
    pushed := ← required count? "pushed" fields
    popped := ← required count? "popped" fields
    forceClosed := ← required count? "force_closed" fields
    maxDepth := ← required count? "max_depth" fields }

end ScopeStats

namespace ScanResult

/-- The fields of a result's object. -/
def jsonFields (r : ScanResult) : List (String × Json) :=
  [("symbols", .list (r.symbols.map Symbol.toJson)),
    ("diagnostics", .list (r.diagnostics.map Diagnostic.toJson)), ("stats", r.stats.toJson)]

def toJson (r : ScanResult) : Json := .object r.jsonFields

/-- The result in the fields of an object. -/
def ofFields? (fields : List (String × Json)) : Option ScanResult := do
  return {
    symbols := ← required (listOf? Symbol.ofJson?) "symbols" fields
    diagnostics := ← required (listOf? Diagnostic.ofJson?) "diagnostics" fields
    stats := ← required ScopeStats.ofJson? "stats" fields }

def ofJson? (j : Json) : Option ScanResult :=
  (recordFields? ["symbols", "diagnostics", "stats"] j).bind ofFields?

end ScanResult

namespace FileScan

def toJson (f : FileScan) : Json :=
  .object [("path", .string f.path), ("language", .string f.language), ("result", f.result.toJson)]

def ofJson? (j : Json) : Option FileScan := do
  let fields ← recordFields? ["path", "language", "result"] j
  return {
    path := ← required string? "path" fields
    language := ← required string? "language" fields
    result := ← required ScanResult.ofJson? "result" fields }

end FileScan

/-! ## Profiles -/

/-- A text or null. -/
def Json.ofText? (text : Option String) : Json := .ofOption (text.map .string)

/-- Characters as texts of length one. -/
def Json.ofChars (chars : List Char) : Json := .list (chars.map fun c => .string c.toString)

namespace CommentMarkers

def toJson (c : CommentMarkers) : Json :=
  .object [("line", .ofText? c.line), ("block_start", .ofText? c.blockStart),
    ("block_end", .ofText? c.blockEnd)]

/-- A marker that is not given is absent. -/
def ofJson? (j : Json) : Option CommentMarkers := do
  let fields ← recordFields? fieldNames j
  return {
    line := ← withDefault none (nullable? string?) "line" fields
    blockStart := ← withDefault none (nullable? string?) "block_start" fields
    blockEnd := ← withDefault none (nullable? string?) "block_end" fields }

end CommentMarkers

namespace Profile

def toJson (p : Profile) : Json :=
  .object [("name", .string p.name), ("extensions", .ofStrings p.extensions),
    ("keywords", .ofStrings p.keywords), ("modifiers", .ofStrings p.modifiers),
    ("control_keywords", .ofStrings p.controlKeywords),
    ("type_declaration_keywords", .ofStrings p.typeDeclarationKeywords),
    ("type_keywords", .ofStrings p.typeKeywords),
    ("trailing_clause_keywords", .ofStrings p.trailingClauseKeywords),
    ("constructor_initializers", .ofStrings p.constructorInitializers),
    ("default_value_keyword", .ofText? p.defaultValueKeyword),
    ("expression_body_arrow", .ofText? p.expressionBodyArrow),
    ("anonymous_class_keyword", .ofText? p.anonymousClassKeyword),
    ("comments", p.comments.toJson), ("string_delimiters", .ofChars p.stringDelimiters),
    ("char_delimiters", .ofChars p.charDelimiters),
    ("verbatim_string_prefixes", .ofStrings p.verbatimPrefixes),
    ("emit_type_symbols", .bool p.emitTypeSymbols),
    ("bodyless_declarations", .bool p.bodylessDeclarations),
    ("max_candidate_tokens", .nat p.maxCandidateTokens)]

/-- Only the name has to be given; all else has the defaults of `Profile`. -/
def ofJson? (j : Json) : Option Profile := do
  let fields ← recordFields? fieldNames j
  let words := withDefault [] strings?
  let text := withDefault none (nullable? string?)
  let usual : Profile := { name := ← required string? "name" fields }
  return { usual with
    extensions := ← words "extensions" fields
    keywords := ← words "keywords" fields
    modifiers := ← words "modifiers" fields
    controlKeywords := ← words "control_keywords" fields
    typeDeclarationKeywords := ← words "type_declaration_keywords" fields
    typeKeywords := ← words "type_keywords" fields
    trailingClauseKeywords := ← words "trailing_clause_keywords" fields
    constructorInitializers := ← words "constructor_initializers" fields
    defaultValueKeyword := ← text "default_value_keyword" fields
    expressionBodyArrow := ← text "expression_body_arrow" fields
    anonymousClassKeyword := ← text "anonymous_class_keyword" fields
    comments := ← withDefault usual.comments CommentMarkers.ofJson? "comments" fields
    stringDelimiters := ←
      withDefault usual.stringDelimiters (listOf? char?) "string_delimiters" fields
    charDelimiters := ← withDefault usual.charDelimiters (listOf? char?) "char_delimiters" fields
    verbatimPrefixes := ← words "verbatim_string_prefixes" fields
    emitTypeSymbols := ← withDefault usual.emitTypeSymbols bool? "emit_type_symbols" fields
    bodylessDeclarations := ←
      withDefault usual.bodylessDeclarations bool? "bodyless_declarations" fields
    maxCandidateTokens := ←
      withDefault usual.maxCandidateTokens count? "max_candidate_tokens" fields }

end Profile

end DeclTags
