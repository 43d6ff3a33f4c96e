import DeclTags.Yaml.Token

set_option autoImplicit false

/-! # Reading YAML

The tokens of a text as one document. A node that is left out reads as `Node.empty`. Each function
gives what it read and the remaining tokens; those that read the inside of a collection are given
what they have of it already, last first. A fuel bounds the recursion, for which twice the number
of tokens is enough. -/

namespace DeclTags.Yaml

/-- Whether a node is left out before the next token, if `stops` are the tokens that end it. -/
def isLeftOut (stops : List Token) (tokens : List Token) : Bool :=
  tokens.head?.any stops.contains

mutual

/-- A node. Outside of brackets (`inBlock`) it may be a block collection, and the value of a map
(`inMap`) may be a list without indentation. -/
def readNode (inBlock inMap : Bool) : Nat → List Token → Option (Node × List Token)
  | 0, _ => none
  | fuel + 1, tokens =>
    match tokens with
    | .scalar s :: rest => some (.scalar s, rest)
    | .openList :: rest =>
      (readFlowItems true [] fuel rest).map fun (items, rest) => (.list items, rest)
    | .openMap :: rest =>
      (readFlowEntries true [] fuel rest).map fun (entries, rest) => (.map entries, rest)
    | .item :: _ =>
      if inMap then (readItems true [] fuel tokens).map fun (items, rest) => (.list items, rest)
      else none
    | .blockList :: rest =>
      if inBlock then (readItems false [] fuel rest).map fun (items, rest) => (.list items, rest)
      else none
    | .blockMap :: rest =>
      if inBlock then (readEntries [] fuel rest).map fun (entries, rest) => (.map entries, rest)
      else none
    | _ => none

/-- A node, or the empty one if it is left out. -/
def readOptional (inBlock inMap : Bool) (stops : List Token) :
    Nat → List Token → Option (Node × List Token)
  | 0, _ => none
  | fuel + 1, tokens =>
    if isLeftOut stops tokens then some (.empty, tokens) else readNode inBlock inMap fuel tokens

/-- The items of a block list. One without indentation has no end of its own. -/
def readItems (indentless : Bool) (read : List Node) :
    Nat → List Token → Option (List Node × List Token)
  | 0, _ => none
  | fuel + 1, tokens =>
    match tokens with
    | .item :: rest => do
      let stops := if indentless then [.item, .key, .value, .blockEnd] else [.item, .blockEnd]
      let (node, rest) ← readOptional true false stops fuel rest
      readItems indentless (node :: read) fuel rest
    | .blockEnd :: rest => some (read.reverse, if indentless then tokens else rest)
    | _ => if indentless then some (read.reverse, tokens) else none

/-- The entries of a block map. -/
def readEntries (read : List (Node × Node)) :
    Nat → List Token → Option (List (Node × Node) × List Token)
  | 0, _ => none
  | fuel + 1, tokens =>
    match tokens with
    | .key :: rest => do
      let stops := [Token.key, .value, .blockEnd]
      let (key, rest) ← readOptional true true stops fuel rest
      let (value, rest) ←
        match rest with
        | .value :: rest => readOptional true true stops fuel rest
        | _ => some (.empty, rest)
      readEntries ((key, value) :: read) fuel rest
    | .blockEnd :: rest => some (read.reverse, rest)
    | _ => none

/-- The items of a list in brackets. A key and a value among them are a map of their own. If the key
is left out, the token that shows it is passed over. -/
def readFlowItems (first : Bool) (read : List Node) :
    Nat → List Token → Option (List Node × List Token)
  | 0, _ => none
  | fuel + 1, tokens =>
    match tokens with
    | .closeList :: rest => some (read.reverse, rest)
    | _ => do
      let tokens ←
        match tokens with
        | .comma :: rest => if first then none else some rest
        | _ => if first then some tokens else none
      match tokens with
      | .closeList :: rest => some (read.reverse, rest)
      | .key :: rest =>
        let (key, rest) ←
          if isLeftOut [.value, .comma, .closeList] rest then some (.empty, rest.tail)
          else readNode false false fuel rest
        let (value, rest) ←
          match rest with
          | .value :: rest => readOptional false false [.comma, .closeList] fuel rest
          | _ => some (.empty, rest)
        readFlowItems false (.map [(key, value)] :: read) fuel rest
      | _ =>
        let (node, rest) ← readNode false false fuel tokens
        readFlowItems false (node :: read) fuel rest

/-- The entries of a map in brackets. A node among them is a key without a value. -/
def readFlowEntries (first : Bool) (read : List (Node × Node)) :
    Nat → List Token → Option (List (Node × Node) × List Token)
  | 0, _ => none
  | fuel + 1, tokens =>
    match tokens with
    | .closeMap :: rest => some (read.reverse, rest)
    | _ => do
      let tokens ←
        match tokens with
        | .comma :: rest => if first then none else some rest
        | _ => if first then some tokens else none
      match tokens with
      | .closeMap :: rest => some (read.reverse, rest)
      | .key :: rest =>
        let (key, rest) ← readOptional false false [.value, .comma, .closeMap] fuel rest
        let (value, rest) ←
          match rest with
          | .value :: rest => readOptional false false [.comma, .closeMap] fuel rest
          | _ => some (.empty, rest)
        readFlowEntries false ((key, value) :: read) fuel rest
      | _ =>
        let (node, rest) ← readNode false false fuel tokens
        readFlowEntries false ((node, .empty) :: read) fuel rest

end

/-- The one document of a text; a text without a node is none. -/
def parse? (text : String) : Option Node := do
  let tokens ← tokensOf? text
  let tokens := if tokens.head? = some .documentStart then tokens.tail else tokens
  let (node, rest) ← readNode true false (2 * tokens.length + 2) tokens
  if rest.all (· == .documentEnd) then some node else none

end DeclTags.Yaml
