import DeclTags.Profile
import DeclTags.Text.Layout

set_option autoImplicit false

/-! # Grammars

A grammar is a profile made ready for scanning: the reserved words are collected, half-given block
comments are gone and the verbatim prefixes stand longest first. -/

namespace DeclTags

/-- What lexing and recognition need to know of a language. -/
structure Grammar where
  name : String
  /-- Every reserved word, whatever its role. -/
  keywords : List String
  modifiers : List String
  controlKeywords : List String
  typeDeclarationKeywords : List String
  typeKeywords : List String
  trailingClauseKeywords : List String
  constructorInitializers : List String
  defaultValueKeyword : Option String
  expressionBodyArrow : Option String
  anonymousClassKeyword : Option String
  lineComment : Option String
  blockComment : Option (String × String)
  stringDelimiters : List Char
  charDelimiters : List Char
  /-- Longest first. -/
  verbatimPrefixes : List String
  emitTypeSymbols : Bool
  bodylessDeclarations : Bool
  maxCandidateTokens : Nat
  deriving DecidableEq, Repr

namespace Grammar

/-- The grammar of a profile, sound or not. -/
def ofProfile (p : Profile) : Grammar where
  name := p.name
  keywords := p.keywords ++ p.modifiers ++ p.controlKeywords ++ p.typeDeclarationKeywords ++
    p.typeKeywords ++ p.trailingClauseKeywords ++ p.constructorInitializers ++
    p.anonymousClassKeyword.toList ++ p.defaultValueKeyword.toList
  modifiers := p.modifiers
  controlKeywords := p.controlKeywords
  typeDeclarationKeywords := p.typeDeclarationKeywords
  typeKeywords := p.typeKeywords
  trailingClauseKeywords := p.trailingClauseKeywords
  constructorInitializers := p.constructorInitializers
  defaultValueKeyword := p.defaultValueKeyword
  expressionBodyArrow := p.expressionBodyArrow
  anonymousClassKeyword := p.anonymousClassKeyword
  lineComment := p.comments.line
  blockComment :=
    match p.comments.blockStart, p.comments.blockEnd with
    | some opening, some closing => some (opening, closing)
    | _, _ => none
  stringDelimiters := p.stringDelimiters
  charDelimiters := p.charDelimiters
  verbatimPrefixes := p.verbatimPrefixes.mergeSort fun a b => b.utf8ByteSize ≤ a.utf8ByteSize
  emitTypeSymbols := p.emitTypeSymbols
  bodylessDeclarations := p.bodylessDeclarations
  maxCandidateTokens := p.maxCandidateTokens

/-- The grammar of a profile, or the profile's first fault. -/
def compile (p : Profile) : Except Profile.Fault Grammar :=
  match p.fault? with
  | some fault => .error fault
  | none => .ok (ofProfile p)

/-- The grammar with the reporting of types switched on or off. -/
def withTypeSymbols (g : Grammar) (emit : Bool) : Grammar := { g with emitTypeSymbols := emit }

/-! ## The roles of a word -/

def isKeyword (g : Grammar) (word : String) : Bool := g.keywords.contains word

def isModifier (g : Grammar) (word : String) : Bool := g.modifiers.contains word

def isControl (g : Grammar) (word : String) : Bool := g.controlKeywords.contains word

def isTypeDeclaration (g : Grammar) (word : String) : Bool :=
  g.typeDeclarationKeywords.contains word

def isTypeKeyword (g : Grammar) (word : String) : Bool := g.typeKeywords.contains word

def isTrailingClause (g : Grammar) (word : String) : Bool :=
  g.trailingClauseKeywords.contains word

def isConstructorInitializer (g : Grammar) (word : String) : Bool :=
  g.constructorInitializers.contains word

def isDefaultValue (g : Grammar) (word : String) : Bool := g.defaultValueKeyword == some word

def isAnonymousClass (g : Grammar) (word : String) : Bool :=
  g.anonymousClassKeyword == some word

/-- The names of the roles that a word has, in a fixed order. -/
def roles (g : Grammar) (word : String) : List String :=
  [("keyword", g.isKeyword word), ("modifier", g.isModifier word),
    ("control", g.isControl word), ("type_declaration", g.isTypeDeclaration word),
    ("type", g.isTypeKeyword word), ("trailing_clause", g.isTrailingClause word),
    ("constructor_initializer", g.isConstructorInitializer word),
    ("default_value", g.isDefaultValue word),
    ("anonymous_class", g.isAnonymousClass word)].filterMap
      fun (role, has) => if has then some role else none

/-! ## Delimiters -/

def isStringDelimiter (g : Grammar) (c : Char) : Bool := g.stringDelimiters.contains c

def isCharDelimiter (g : Grammar) (c : Char) : Bool := g.charDelimiters.contains c

/-- Whether `marker` opens a verbatim string at the head of the text: a string delimiter has to
follow it. -/
def opensVerbatim (g : Grammar) (text : List Char) (marker : String) : Bool :=
  marker.toList.isPrefixOf text &&
    (text.drop marker.length).head?.any g.isStringDelimiter

/-- The longest verbatim prefix that opens a string at the head of the text. -/
def verbatimPrefix? (g : Grammar) (text : List Char) : Option String :=
  g.verbatimPrefixes.find? (g.opensVerbatim text)

end Grammar

end DeclTags
