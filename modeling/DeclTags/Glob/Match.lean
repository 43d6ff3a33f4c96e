import DeclTags.Glob

set_option autoImplicit false

/-! # What a pattern matches

A text of `n` bytes has `n + 1` ends, from the whole text to the empty one. A set of ends is a list
of truth values in that order. Each token turns the set of the ends that what follows it matches
into the set of those that it matches together with what follows; the pattern is gone through from
its last token to its first. -/

namespace DeclTags.Glob

/-- For each end of a text, whether it is in a set. -/
abbrev Ends := List Bool

namespace Ends

/-- The set of the empty end alone. -/
def final : List UInt8 → Ends
  | [] => [true]
  | _ :: bs => false :: final bs

/-- The set without any end. -/
def none (bs : List UInt8) : Ends := false :: bs.map fun _ => false

/-- The ends in one of two sets. -/
def union (a b : Ends) : Ends := List.zipWith (· || ·) a b

/-- The ends that lead into the set by one byte with the property `p`. -/
def afterByte (p : UInt8 → Bool) : List UInt8 → Ends → Ends
  | b :: bs, _ :: ends => (p b && ends.headD false) :: afterByte p bs ends
  | _, _ => [false]

/-- The ends that lead into the set by any number of bytes. -/
def afterBytes : Ends → Ends
  | [] => []
  | e :: ends =>
    let later := afterBytes ends
    (e || later.headD false) :: later

def isSlash (b : UInt8) : Bool := b = 0x2F

/-- The ends that lead into the set by bytes of which the last one is a slash. -/
def afterSlash : List UInt8 → Ends → Ends
  | b :: bs, _ :: ends =>
    let later := afterSlash bs ends
    ((isSlash b && ends.headD false) || later.headD false) :: later
  | _, _ => [false]

/-- The ends in the set, and those that lead into it by bytes of which the last one is a slash. -/
def afterParts (bs : List UInt8) (ends : Ends) : Ends := ends.union (afterSlash bs ends)

end Ends

def inClass (negated : Bool) (ranges : List (Char × Char)) (b : UInt8) : Bool :=
  ((ranges.flatMap byteRanges).any fun (low, high) => low ≤ b && b ≤ high) != negated

mutual

/-- The ends that a token matches, together with what matches the ends `ends`. -/
def tokenEnds (bs : List UInt8) (ends : Ends) : GlobToken → Ends
  | .literal c => (Text.bytesOf [c]).foldr (fun b ends => ends.afterByte (· = b) bs) ends
  | .any => ends.afterByte (fun _ => true) bs
  | .anyRun => ends.afterBytes
  | .leadingParts => ends.afterParts bs
  | .trailingParts => ends.afterBytes.afterByte Ends.isSlash bs
  | .innerParts => (ends.afterParts bs).afterByte Ends.isSlash bs
  | .charClass negated ranges => ends.afterByte (inClass negated ranges) bs
  | .branches patterns => if areVoid patterns then ends else branchEnds bs ends patterns

/-- The ends that one of some branches matches. -/
def branchEnds (bs : List UInt8) (ends : Ends) : List (List GlobToken) → Ends
  | [] => .none bs
  | pattern :: patterns =>
    let others := branchEnds bs ends patterns
    if isVoid pattern then others else (tokensEnds bs ends pattern).union others

/-- The ends that some tokens match. -/
def tokensEnds (bs : List UInt8) (ends : Ends) : List GlobToken → Ends
  | [] => ends
  | token :: tokens => tokenEnds bs (tokensEnds bs ends tokens) token

end

/-- Whether the pattern matches the whole path. Parts alone match every path. -/
def isMatch (g : Glob) (path : String) : Bool :=
  let bytes := path.toUTF8.toList
  match g.tokens with
  | [.leadingParts] => true
  | tokens => (tokensEnds bytes (.final bytes) tokens).headD false

end DeclTags.Glob
