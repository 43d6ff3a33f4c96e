import DeclTags.Text.CodeRange

set_option autoImplicit false

/-! # White space

The property `White_Space` of the Unicode Character Database, trimming, and the words between
runs of white space. -/

namespace DeclTags.Text

/-- The code points that are white space. -/
def blankRanges : List CodeRange :=
  [(0x0009, 0x000D), (0x0020, 0x0020), (0x0085, 0x0085), (0x00A0, 0x00A0), (0x1680, 0x1680),
  (0x2000, 0x200A), (0x2028, 0x2029), (0x202F, 0x202F), (0x205F, 0x205F), (0x3000, 0x3000)]

/-- A white space character, line ends included. -/
def isBlank (c : Char) : Bool := inRanges blankRanges c

/-- What core counts as white space is blank. -/
theorem isBlank_of_isWhitespace {c : Char} (h : c.isWhitespace = true) : isBlank c = true := by
  simp only [Char.isWhitespace, Bool.or_eq_true, decide_eq_true_eq] at h
  rcases h with ((rfl | rfl) | rfl) | rfl <;> decide

/-- The text without the white space at its start. -/
def trimStart (cs : List Char) : List Char := cs.dropWhile isBlank

/-- The text without the white space at its end. -/
def trimEnd (cs : List Char) : List Char := (cs.reverse.dropWhile isBlank).reverse

/-- The text without the white space at its two ends. -/
def trim (cs : List Char) : List Char := trimEnd (trimStart cs)

/-- The words of `found` (last first), then those of a text that follows the letters `word` (last
letter first) of an open word. -/
def wordsOnto (found : List (List Char)) (word : List Char) : List Char → List (List Char)
  | [] => (if word.isEmpty then found else word.reverse :: found).reverse
  | c :: cs =>
    if isBlank c then wordsOnto (if word.isEmpty then found else word.reverse :: found) [] cs
    else wordsOnto found (c :: word) cs

/-- The maximal runs of characters that are not white space. -/
def words (cs : List Char) : List (List Char) := wordsOnto [] [] cs

end DeclTags.Text
