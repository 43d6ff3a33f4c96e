import DeclTags.Report.Document

set_option autoImplicit false

/-! # Listings

The report for a reader: a header, for each file its symbols and diagnostics one a line, and a
summary. Colours are optional and change nothing else. -/

namespace DeclTags

/-! ## Colours -/

inductive TextStyle where
  | title
  | bold
  | dim
  | blue
  | yellow
  deriving DecidableEq, Repr

namespace TextStyle

/-- The sequence that switches a style on. -/
def code : TextStyle → String
  | .title => "\x1b[1;36m"
  | .bold => "\x1b[1m"
  | .dim => "\x1b[2m"
  | .blue => "\x1b[34m"
  | .yellow => "\x1b[33m"

/-- The sequence that switches every style off. -/
def reset : String := "\x1b[0m"

/-- The text with the style switched on again wherever the text switches it off. -/
def renewed (code : List Char) : List Char → List Char
  | '\x1b' :: '[' :: '0' :: 'm' :: cs => reset.toList ++ (code ++ renewed code cs)
  | c :: cs => c :: renewed code cs
  | [] => []

end TextStyle

/-- A text in a style, filled up to `width` characters. -/
def styled (colour : Bool) (style : TextStyle) (width : Nat) (text : String) : String :=
  if colour then
    style.code ++
      Text.padRight width (String.ofList (TextStyle.renewed style.code.toList text.toList)) ++
      TextStyle.reset
  else Text.padRight width text

/-! ## Lines -/

/-- A number and its word, with an `s` for all numbers but one. -/
def plural (count : Nat) (word : String) : String := if count = 1 then word else word ++ "s"

def counted (count : Nat) (word : String) : String := toString count ++ " " ++ plural count word

/-- The lines of a symbol: place, kind, signature and scope, and its summary if it has one. -/
def symbolLines (colour : Bool) (s : Symbol) : String :=
  let scope :=
    if s.path.isEmpty then ""
    else "  " ++ styled colour .dim 0 ("in " ++ String.intercalate "." s.path)
  let summary :=
    match s.docSummary? with
    | some summary => "             " ++ styled colour .dim 0 summary ++ "\n"
    | none => ""
  "    " ++ styled colour .dim 8 s.span.shown ++ " " ++ Text.padRight 12 s.kind.name ++ " " ++
    styled colour .bold 0 s.signature ++ scope ++ "\n" ++ summary

/-- The label of a severity. -/
def severityLabel (colour : Bool) : Severity → String
  | .warning => styled colour .yellow 0 "WARN "
  | .info => styled colour .blue 0 "INFO "

/-- The line of a diagnostic. -/
def diagnosticLine (colour : Bool) (d : Diagnostic) : String :=
  "    " ++ severityLabel colour d.severity ++ " " ++ styled colour .dim 8 (toString d.line) ++
    " " ++ styled colour .dim 22 d.kind.name ++ " " ++ d.message ++ "\n"

/-- The lines of a file and an empty one. -/
def fileLines (colour : Bool) (f : FileScan) : String :=
  "  " ++ styled colour .blue 0 f.shownPath ++ " " ++
    styled colour .dim 0 ("(" ++ f.language ++ ")") ++ "\n" ++
    String.join (f.result.symbols.map (symbolLines colour)) ++
    String.join (f.result.diagnostics.map (diagnosticLine colour)) ++ "\n"

/-- The line of the sums. Warnings go by severity, notes are the ambiguities. -/
def summaryLine (colour : Bool) (scans : List FileScan) : String :=
  let symbols := Report.symbolTotal scans
  let warnings := scans.foldr (fun f n => f.result.warningCount + n) 0
  let notes := scans.foldr (fun f n => (f.result.diagnosticsOf .ambiguity).length + n) 0
  "  " ++ styled colour .bold 0 (toString symbols) ++ " " ++ plural symbols "symbol" ++ " in " ++
    counted scans.length "file" ++
    (if 0 < warnings then "  " ++ styled colour .yellow 0 (counted warnings "warning") else "") ++
    (if 0 < notes then "  " ++ styled colour .dim 0 (counted notes "note") else "") ++ "\n"

/-- The listing of the scans below a path. -/
def listingText (colour : Bool) (path : String) (scans : List FileScan) : String :=
  "\n  " ++ styled colour .title 0 "bracetag" ++ " v" ++ version ++ "\n\n  " ++
    styled colour .dim 0 "Scanning: " ++ path ++ "\n\n" ++
    String.join (scans.map (fileLines colour)) ++ summaryLine colour scans ++ "\n"

end DeclTags
