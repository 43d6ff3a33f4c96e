import DeclTags.Profile
import DeclTags.Yaml.Printer
import DeclTags.Yaml.Reader

set_option autoImplicit false

/-! # Profiles as YAML documents

A profile is a map of its fields, and is written with all of them. `Profile.ofNode?` passes over
unknown fields and takes defaults for missing ones; a known field may be given only once. A text is
read from every scalar, whatever its style; null, truth values and numbers from plain scalars only.
What is left empty reads as a list or map without items. -/

namespace DeclTags

namespace Yaml.Node

/-! ## Reading values -/

def text? : Node → Option String
  | .scalar s => some s.text
  | _ => none

/-- A text, or null. -/
def nullableText? : Node → Option (Option String)
  | .scalar s => some (if s.isPlain && isNull s.text then none else some s.text)
  | _ => none

def bool? : Node → Option Bool
  | .scalar s => if s.isPlain then boolOf? s.text else none
  | _ => none

/-- A count, in range. -/
def count? : Node → Option Nat
  | .scalar s => if s.isPlain then (natOf? s.text).filter (· < countLimit) else none
  | _ => none

/-- A text of exactly one character. -/
def char? (n : Node) : Option Char :=
  n.text?.bind fun text =>
    match text.toList with
    | [c] => some c
    | _ => none

/-- A list of which every item is read. -/
def listOf? {α : Type} (read : Node → Option α) : Node → Option (List α)
  | .list items => items.mapM read
  | n => if n.isEmpty then some [] else none

def texts? (n : Node) : Option (List String) := n.listOf? text?

/-- The fields of a map whose keys are texts, none of the names in `known` given twice. -/
def fields? (known : List String) : Node → Option (List (String × Node))
  | .map entries => do
    let fields ← entries.mapM fun (key, value) => key.text?.map fun name => (name, value)
    if known.all fun name => fields.countP (·.1 == name) ≤ 1 then some fields else none
  | n => if n.isEmpty then some [] else none

/-- A field with a default. -/
def withDefault {α : Type} (default : α) (read : Node → Option α) (name : String)
    (fields : List (String × Node)) : Option α :=
  match fields.lookup name with
  | none => some default
  | some n => read n

/-! ## Writing values -/

def ofText (text : String) : Node := .scalar (.ofText text)

def ofNullable (text : Option String) : Node := text.elim (plain "null") ofText

def ofBool (value : Bool) : Node := plain (if value then "true" else "false")

def ofTexts (texts : List String) : Node := .list (texts.map ofText)

def ofChars (chars : List Char) : Node := .list (chars.map fun c => .scalar (.ofChar c))

/-- The entries of a map with the given keys. -/
def entries (fields : List (String × Node)) : List (Node × Node) :=
  fields.map fun (name, value) => (plain name, value)

end Yaml.Node

open Yaml Yaml.Node

/-- A marker that is not given is absent. -/
def CommentMarkers.ofNode? (n : Node) : Option CommentMarkers := do
  let fields ← n.fields? fieldNames
  return {
    line := ← withDefault none nullableText? "line" fields
    blockStart := ← withDefault none nullableText? "block_start" fields
    blockEnd := ← withDefault none nullableText? "block_end" fields }

def CommentMarkers.toFields (c : CommentMarkers) : List (String × Node) :=
  [("line", ofNullable c.line), ("block_start", ofNullable c.blockStart),
    ("block_end", ofNullable c.blockEnd)]

def CommentMarkers.toNode (c : CommentMarkers) : Node := .map (entries c.toFields)

namespace Profile

/-- The fields of a profile, all of them in the order of their names. -/
def toFields (p : Profile) : List (String × Node) :=
  [("name", ofText p.name), ("extensions", ofTexts p.extensions),
    ("keywords", ofTexts p.keywords), ("modifiers", ofTexts p.modifiers),
    ("control_keywords", ofTexts p.controlKeywords),
    ("type_declaration_keywords", ofTexts p.typeDeclarationKeywords),
    ("type_keywords", ofTexts p.typeKeywords),
    ("trailing_clause_keywords", ofTexts p.trailingClauseKeywords),
    ("constructor_initializers", ofTexts p.constructorInitializers),
    ("default_value_keyword", ofNullable p.defaultValueKeyword),
    ("expression_body_arrow", ofNullable p.expressionBodyArrow),
    ("anonymous_class_keyword", ofNullable p.anonymousClassKeyword),
    ("comments", p.comments.toNode), ("string_delimiters", ofChars p.stringDelimiters),
    ("char_delimiters", ofChars p.charDelimiters),
    ("verbatim_string_prefixes", ofTexts p.verbatimPrefixes),
    ("emit_type_symbols", ofBool p.emitTypeSymbols),
    ("bodyless_declarations", ofBool p.bodylessDeclarations),
    ("max_candidate_tokens", plain (toString p.maxCandidateTokens))]

/-- The profile as a YAML text. -/
def toYaml (p : Profile) : String := Yaml.render (entries p.toFields)

/-- The profile that a node describes. Only the name has to be given. -/
def ofNode? (n : Node) : Option Profile := do
  let fields ← n.fields? fieldNames
  let words := withDefault [] texts?
  let text := withDefault none nullableText?
  let usual : Profile := { name := ← (← fields.lookup "name").text? }
  return { usual with
    extensions := ← words "extensions" fields
    keywords := ← words "keywords" fields
    modifiers := ← words "modifiers" fields
    controlKeywords := ← words "control_keywords" fields
    typeDeclarationKeywords := ← words "type_declaration_keywords" fields
    typeKeywords := ← words "type_keywords" fields
    trailingClauseKeywords := ← words "trailing_clause_keywords" fields
    constructorInitializers := ← words "constructor_initializers" fields
    defaultValueKeyword := ← text "default_value_keyword" fields
    expressionBodyArrow := ← text "expression_body_arrow" fields
    anonymousClassKeyword := ← text "anonymous_class_keyword" fields
    comments := ← withDefault usual.comments CommentMarkers.ofNode? "comments" fields
    stringDelimiters := ←
      withDefault usual.stringDelimiters (listOf? char?) "string_delimiters" fields
    charDelimiters := ← withDefault usual.charDelimiters (listOf? char?) "char_delimiters" fields
    verbatimPrefixes := ← words "verbatim_string_prefixes" fields
    emitTypeSymbols := ← withDefault usual.emitTypeSymbols bool? "emit_type_symbols" fields
    bodylessDeclarations := ←
      withDefault usual.bodylessDeclarations bool? "bodyless_declarations" fields
    maxCandidateTokens := ←
      withDefault usual.maxCandidateTokens count? "max_candidate_tokens" fields }

end Profile

/-- Why a text gives no profile. -/
inductive ProfileTextError where
  /-- It is no YAML document, or the document describes no profile. -/
  | unreadable
  | faulty (profile : Profile) (fault : Profile.Fault)
  deriving DecidableEq, Repr

/-- The profile that a YAML text describes; it has to be without fault. -/
def Profile.ofYaml (text : String) : Except ProfileTextError Profile :=
  match (Yaml.parse? text).bind Profile.ofNode? with
  | none => .error .unreadable
  | some p =>
    match p.fault? with
    | some fault => .error (.faulty p fault)
    | none => .ok p

end DeclTags
