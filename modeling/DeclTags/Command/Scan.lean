import DeclTags.Command.Arguments
import DeclTags.Command.Outcome
import DeclTags.Report
import DeclTags.Survey
import DeclTags.Text.Quoted

set_option autoImplicit false

/-! # The scan command

The arguments are settled first, then the files are found and scanned, and last the report is
written. Nothing is written before the report is complete. -/

namespace DeclTags

/-- Why a scan gives no report. -/
inductive ScanFault where
  | unknownFormat (name : String)
  | unknownKind (name : String)
  | badProfile (error : ProfileError)
  | unknownLanguage (name : String)
  | inaccessible (path : String) (fault : DiskFault)
  | search (fault : SearchFault)
  | badPatterns (fault : GlobSetFault)
  | unwritable (fault : DiskFault)
  deriving DecidableEq, Repr

def ScanFault.message : ScanFault → String
  | .unknownFormat name =>
    "Error: invalid format " ++ Text.quoted name ++ ", must be 'pretty', 'json', or 'ctags'"
  | .unknownKind name => "Error: unknown diagnostic kind " ++ Text.quoted name
  | .badProfile e => "Error loading profile: " ++ e.message
  | .unknownLanguage name =>
    "Error: unknown language " ++ Text.quoted name ++
      "\nRun 'bracetag profiles' to see available languages"
  | .inaccessible path fault =>
    "Error: cannot access path " ++ Text.quoted path ++ ": " ++ fault.message
  | .search fault => "Error: " ++ fault.message
  | .badPatterns fault => "Error: " ++ fault.message
  | .unwritable fault => "Error: " ++ fault.message

/-- The scan without the diagnostics of some kinds. -/
def FileScan.without (kinds : List DiagnosticKind) (f : FileScan) : FileScan :=
  { f with result := { f.result with
      diagnostics := f.result.diagnostics.filter fun d => !kinds.contains d.kind } }

namespace ScanRequest

/-! ## Settling the arguments -/

def reportFormat (r : ScanRequest) : Except ScanFault ReportFormat :=
  match ReportFormat.ofName? r.format with
  | some format => .ok format
  | none => .error (.unknownFormat r.format)

def ignoredKinds (r : ScanRequest) : Except ScanFault (List DiagnosticKind) :=
  r.ignored.mapM fun name =>
    match DiagnosticKind.ofName? name with
    | some kind => .ok kind
    | none => .error (.unknownKind name)

/-- The languages, the one of the given profile included, and the one that all files have. A given
profile is used for all files unless a language is named. -/
def languages (r : ScanRequest) (e : Environment) :
    Except ScanFault (Registry × Option String) := do
  let (registry, language) ←
    match r.profile with
    | none => pure (e.registry, r.language)
    | some path =>
      let p ← (Profile.load e.disk e.cwd path).mapError .badProfile
      let registry ← (e.registry.register p).mapError fun fault =>
        .badProfile (.badText (.faulty p fault))
      pure (registry, r.language <|> some p.name)
  match language with
  | none => return (registry, none)
  | some name =>
    let _ ← (registry.require name).mapError fun u => .unknownLanguage u.name
    return (registry, some name)

/-! ## Scanning -/

/-- The directory that paths are shown relative to, and the files to scan. -/
def files (r : ScanRequest) (e : Environment) (registry : Registry) :
    Except ScanFault (String × List String) := do
  let location ← (e.disk.resolve e.cwd r.path).mapError (.inaccessible r.path)
  let path := Disk.pathOf location
  if e.disk.hasDirectory location then
    return (path, ← (discover registry e.disk e.cwd path).mapError .search)
  else return (Disk.pathOf location.dropLast, [path])

/-- The scans of some files as the request wants them, with all their diagnostics. -/
def survey (r : ScanRequest) (e : Environment) (registry : Registry) (language : Option String)
    (base : String) (files : List String) : Except ScanFault (List FileScan) := do
  let s : Survey := { base, language, emitTypes := r.types }
  let s ← (s.exclude r.excludes).mapError .badPatterns
  (s.run registry e.disk e.cwd files).mapError fun u => .unknownLanguage u.name

/-- The format and the scans that are reported; no scans if there are no files. -/
def findings (r : ScanRequest) (e : Environment) :
    Except ScanFault (ReportFormat × Option (List FileScan)) := do
  let format ← r.reportFormat
  let kinds ← r.ignoredKinds
  let (registry, language) ← r.languages e
  let (base, files) ← r.files e registry
  if files.isEmpty then return (format, none)
  let scans ← r.survey e registry language base files
  return (format, some (scans.map (FileScan.without kinds)))

/-! ## Reporting -/

/-- How the command ends that has reported some scans. -/
def status (r : ScanRequest) (scans : List FileScan) : ExitStatus :=
  if r.strict && scans.any (·.result.hasWarnings) then .warned else .success

/-- The outcome of reporting some scans. -/
def report (r : ScanRequest) (e : Environment) (format : ReportFormat) (scans : List FileScan) :
    Outcome :=
  let text := format.render false r.path scans
  match r.output with
  | none => { status := r.status scans, stdout := text, disk := e.disk }
  | some path =>
    match e.disk.write e.cwd path (Text.bytesOf text.toList) with
    | .ok disk => { status := r.status scans, disk }
    | .error fault => Outcome.failed e (ScanFault.unwritable fault).message

def run (r : ScanRequest) (e : Environment) : Outcome :=
  match r.findings e with
  | .error fault => Outcome.failed e fault.message
  | .ok (_, none) =>
    { status := .success, stderr := "Warning: no files to scan\n", disk := e.disk }
  | .ok (format, some scans) => r.report e format scans

end ScanRequest

end DeclTags
