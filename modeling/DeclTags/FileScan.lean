import DeclTags.Scan

set_option autoImplicit false

/-! # Scans of files -/

namespace DeclTags

/-- The scan of one file. -/
structure FileScan where
  /-- Relative to the root of the search. -/
  path : String
  /-- The name of the profile that was used. -/
  language : String
  result : ScanResult
  deriving DecidableEq, Repr, Inhabited

end DeclTags
