import DeclTags.Profile

set_option autoImplicit false

/-! # Built-in profiles

The languages that are known without a profile file. -/

namespace DeclTags.Profile

/-- Java. -/
def java : Profile where
  name := "java"
  extensions := ["java"]
  keywords :=
    ["public", "private", "protected", "static", "final", "void", "class", "new", "try", "catch",
     "return", "if", "else", "for", "while", "do", "assert", "break", "const", "continue", "goto",
     "import", "instanceof", "package", "this", "throw", "null", "true", "false"]
  modifiers :=
    ["public", "private", "protected", "static", "final", "abstract", "synchronized", "native",
     "transient", "volatile", "strictfp", "default", "sealed", "non-sealed"]
  controlKeywords :=
    ["if", "else", "for", "while", "do", "switch", "case", "try", "catch", "finally",
     "synchronized"]
  typeDeclarationKeywords := ["class", "interface", "enum", "record"]
  typeKeywords :=
    ["void", "boolean", "byte", "char", "short", "int", "long", "float", "double", "extends",
     "super"]
  trailingClauseKeywords := ["throws"]
  defaultValueKeyword := some "default"
  anonymousClassKeyword := some "new"

/-- C#. -/
def csharp : Profile where
  name := "csharp"
  extensions := ["cs"]
  keywords :=
    ["new", "return", "this", "base", "throw", "break", "continue", "goto", "namespace", "using",
     "is", "as", "typeof", "sizeof", "null", "true", "false"]
  modifiers :=
    ["public", "private", "protected", "internal", "static", "readonly", "sealed", "abstract",
     "virtual", "override", "extern", "unsafe", "async", "partial", "const", "volatile"]
  controlKeywords :=
    ["if", "else", "for", "foreach", "while", "do", "switch", "case", "try", "catch", "finally",
     "lock", "using", "fixed", "checked", "unchecked"]
  typeDeclarationKeywords := ["class", "interface", "struct", "enum", "record"]
  typeKeywords :=
    ["void", "bool", "byte", "sbyte", "char", "decimal", "double", "float", "int", "uint", "long",
     "ulong", "short", "ushort", "object", "string", "dynamic"]
  trailingClauseKeywords := ["where"]
  constructorInitializers := ["base", "this"]
  expressionBodyArrow := some "=>"
  verbatimPrefixes := ["@", "$@", "@$"]

/-- The built-in profiles, in the order of their names. -/
def builtins : List Profile := [csharp, java]

/-- The built-in profile of a name. -/
def builtin? (name : String) : Option Profile := builtins.find? (·.name == name)

/-- The names of the built-in profiles, in order. -/
def builtinNames : List String := builtins.map (·.name)

end DeclTags.Profile
