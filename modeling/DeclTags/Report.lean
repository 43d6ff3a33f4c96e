import DeclTags.Report.Document
import DeclTags.Report.Listing
import DeclTags.Report.Tags

set_option autoImplicit false

/-! # Report formats -/

namespace DeclTags

inductive ReportFormat where
  | listing
  | json
  | tags
  deriving DecidableEq, Repr, Inhabited

namespace ReportFormat

def name : ReportFormat → String
  | .listing => "pretty"
  | .json => "json"
  | .tags => "ctags"

/-- The format of a given name. -/
def ofName? (name : String) : Option ReportFormat :=
  [ReportFormat.listing, .json, .tags].find? (·.name == name)

/-- The report on the scans below a path. -/
def render (colour : Bool) (path : String) (scans : List FileScan) : ReportFormat → String
  | .listing => listingText colour path scans
  | .json => (Report.ofScans scans).text
  | .tags => tagsText scans

end ReportFormat

end DeclTags
