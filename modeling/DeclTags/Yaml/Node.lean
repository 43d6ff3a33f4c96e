set_option autoImplicit false

/-! # YAML nodes

A document is a tree of scalars, lists and maps. A scalar keeps the style it is written in, since
only a plain scalar can be read as something else than a text. -/

namespace DeclTags.Yaml

/-- How a scalar is written. -/
inductive ScalarStyle where
  | plain
  | singleQuoted
  | doubleQuoted
  /-- A block of lines behind `|`. -/
  | literal
  /-- A block of lines behind `>`, line ends read as spaces. -/
  | folded
  deriving DecidableEq, Repr, Inhabited

structure Scalar where
  style : ScalarStyle
  text : String
  deriving DecidableEq, Repr, Inhabited

def Scalar.isPlain (s : Scalar) : Bool := s.style == .plain

inductive Node where
  | scalar (value : Scalar)
  | list (items : List Node)
  | map (entries : List (Node × Node))
  deriving Repr, Inhabited

namespace Node

/-- A plain scalar. -/
def plain (text : String) : Node := .scalar ⟨.plain, text⟩

/-- What stands where nothing is written. -/
def empty : Node := plain ""

def isEmpty : Node → Bool
  | .scalar s => s.isPlain && s.text.isEmpty
  | _ => false

end Node

end DeclTags.Yaml
