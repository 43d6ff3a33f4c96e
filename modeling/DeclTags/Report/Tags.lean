import DeclTags.Report.Document

set_option autoImplicit false

/-! # Tags files

One line for each symbol, in the order of names, files and lines. Four lines before them describe
the format; they begin with `!`, which stands before every character that a name begins with. -/

namespace DeclTags

/-- A symbol in a tags file. -/
structure Tag where
  name : String
  file : String
  /-- The line of the name. -/
  line : Nat
  kind : SymbolKind
  /-- The names of the enclosing declarations. -/
  path : List String
  deriving DecidableEq, Repr, Inhabited

namespace Tag

/-- The letter of a kind. -/
def letter : SymbolKind → String
  | .method | .constructor => "m"
  | .type => "c"

/-- The order of tags; tags that are equal in it keep their order. -/
def le (a b : Tag) : Bool :=
  if a.name ≠ b.name then Text.le a.name b.name
  else if a.file ≠ b.file then Text.le a.file b.file
  else a.line ≤ b.line

/-- The line of a tag. -/
def text (t : Tag) : String :=
  let scope := if t.path.isEmpty then "" else "\tclass:" ++ String.intercalate "." t.path
  t.name ++ "\t" ++ t.file ++ "\t" ++ toString t.line ++ ";\"\t" ++ letter t.kind ++ scope ++ "\n"

end Tag

/-- The tags of the symbols of a file. -/
def FileScan.tags (f : FileScan) : List Tag :=
  f.result.symbols.map fun s => ⟨s.name, f.shownPath, s.span.line, s.kind, s.path⟩

/-- The lines that describe the format. -/
def tagsHeader : List String :=
  ["!_TAG_FILE_FORMAT\t2\t/extended format; --format=1 will not append ;\" to lines/\n",
    "!_TAG_FILE_SORTED\t1\t/0=unsorted, 1=sorted, 2=foldcase/\n",
    "!_TAG_PROGRAM_NAME\tbracetag\t//\n",
    "!_TAG_PROGRAM_VERSION\t" ++ version ++ "\t//\n"]

/-- The tags of some scans in order. -/
def sortedTags (scans : List FileScan) : List Tag :=
  (scans.flatMap FileScan.tags).mergeSort Tag.le

/-- The tags file of some scans. -/
def tagsText (scans : List FileScan) : String :=
  String.join (tagsHeader ++ (sortedTags scans).map Tag.text)

end DeclTags
