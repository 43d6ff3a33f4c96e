import DeclTags.Text.Alphabetic
import DeclTags.Text.Blank

set_option autoImplicit false

/-! # Language profiles

A profile names the words and delimiters of one language family. Whether a profile makes sense is
decided by `Profile.fault?`, which reports the first fault in a fixed order. -/

namespace DeclTags

/-- Counts, in profiles and in records, are below this number. -/
def countLimit : Nat := Nat.pow 2 64

/-- The comment markers of a language; each may be absent. -/
structure CommentMarkers where
  line : Option String := none
  blockStart : Option String := none
  blockEnd : Option String := none
  deriving DecidableEq, Repr, Inhabited

/-- The markers of a profile that does not speak of comments. -/
def CommentMarkers.usual : CommentMarkers := ⟨some "//", some "/*", some "*/"⟩

/-- The names of the fields in a profile file. -/
def CommentMarkers.fieldNames : List String := ["line", "block_start", "block_end"]

/-- The words and delimiters of one language family. -/
structure Profile where
  name : String
  /-- File extensions without the leading dot. -/
  extensions : List String := []
  /-- Reserved words without a structural role. -/
  keywords : List String := []
  modifiers : List String := []
  controlKeywords : List String := []
  /-- Words that introduce a type declaration, such as `class`. -/
  typeDeclarationKeywords : List String := []
  /-- Reserved words that may stand in a type expression. -/
  typeKeywords : List String := []
  /-- Words that begin a clause after a parameter list, such as `throws`. -/
  trailingClauseKeywords : List String := []
  /-- Words that may follow `:` to chain a constructor. -/
  constructorInitializers : List String := []
  /-- The word before the default value of a member without a body. -/
  defaultValueKeyword : Option String := none
  /-- The punctuation before an expression body that ends at `;`. -/
  expressionBodyArrow : Option String := none
  /-- The word before the name of an anonymous class's base. -/
  anonymousClassKeyword : Option String := none
  comments : CommentMarkers := .usual
  stringDelimiters : List Char := ['"']
  charDelimiters : List Char := ['\'']
  /-- Markers that turn the string after them into one in which only a doubled delimiter is an
  escape. -/
  verbatimPrefixes : List String := []
  /-- Whether type declarations are reported as symbols. -/
  emitTypeSymbols : Bool := false
  /-- Whether members that end at `;` are looked for. -/
  bodylessDeclarations : Bool := true
  /-- A longer run of tokens is never a declaration. -/
  maxCandidateTokens : Nat := 256
  deriving DecidableEq, Repr, Inhabited

namespace Profile

/-- The names of the fields in a profile file. -/
def fieldNames : List String :=
  ["name", "extensions", "keywords", "modifiers", "control_keywords",
    "type_declaration_keywords", "type_keywords", "trailing_clause_keywords",
    "constructor_initializers", "default_value_keyword", "expression_body_arrow",
    "anonymous_class_keyword", "comments", "string_delimiters", "char_delimiters",
    "verbatim_string_prefixes", "emit_type_symbols", "bodyless_declarations",
    "max_candidate_tokens"]

/-- What can be wrong with a profile. -/
inductive Fault where
  | emptyName
  | halfBlockComment
  | emptyCommentMarker
  | sharedDelimiter (delimiter : Char)
  | emptyVerbatimPrefix
  | wordyArrow
  | noCandidateTokens
  deriving DecidableEq, Repr

/-- The text of a fault in the profile called `name`. -/
def Fault.message (name : String) : Fault → String
  | .emptyName => "profile name is empty"
  | .halfBlockComment => name ++ ": block comments need both block_start and block_end"
  | .emptyCommentMarker => name ++ ": comment markers must not be empty"
  | .sharedDelimiter c =>
    name ++ ": '" ++ c.toString ++ "' is both a string and a char delimiter"
  | .emptyVerbatimPrefix => name ++ ": verbatim string prefixes must not be empty"
  | .wordyArrow => name ++ ": expression_body_arrow must be punctuation"
  | .noCandidateTokens => name ++ ": max_candidate_tokens must be at least 1"

/-- An arrow that is empty or holds a letter, a number or white space. -/
def isWordyArrow (arrow : String) : Bool :=
  arrow.isEmpty || arrow.toList.any fun c => Text.isAlphanumeric c || Text.isBlank c

/-- The first fault of a profile. -/
def fault? (p : Profile) : Option Fault :=
  if (Text.trim p.name.toList).isEmpty then some .emptyName
  else if p.comments.blockStart.isSome != p.comments.blockEnd.isSome then some .halfBlockComment
  else if [p.comments.line, p.comments.blockStart, p.comments.blockEnd].any (· == some "") then
    some .emptyCommentMarker
  else if let some c := p.stringDelimiters.find? (p.charDelimiters.contains ·) then
    some (.sharedDelimiter c)
  else if p.verbatimPrefixes.any (·.isEmpty) then some .emptyVerbatimPrefix
  else if p.expressionBodyArrow.any isWordyArrow then some .wordyArrow
  else if p.maxCandidateTokens = 0 then some .noCandidateTokens
  else none

/-- A profile without fault. -/
def Valid (p : Profile) : Prop := p.fault? = none

instance (p : Profile) : Decidable p.Valid := inferInstanceAs (Decidable (_ = _))

/-- The text of a profile's fault for a reader who does not know that it is about a profile. -/
def faultMessage (p : Profile) (fault : Fault) : String :=
  "invalid profile: " ++ fault.message p.name

/-- Equality of texts up to the case of ASCII letters. -/
def sameIgnoringCase (a b : String) : Bool :=
  a.toList.map Char.toLower == b.toList.map Char.toLower

/-- Whether the profile claims a file extension, given with or without leading dots. -/
def handlesExtension (p : Profile) (extension : String) : Bool :=
  let bare := String.ofList (extension.toList.dropWhile (· == '.'))
  p.extensions.any (sameIgnoringCase · bare)

end Profile

end DeclTags
