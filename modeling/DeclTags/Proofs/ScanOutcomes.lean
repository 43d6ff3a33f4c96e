import DeclTags.Command.Scan
import DeclTags.Proofs.Discoveries
import DeclTags.Proofs.TagLines
import DeclTags.Proofs.Writes

set_option autoImplicit false

/-! # What a scan leaves behind

A scan settles its arguments, looks for files, scans them and reports, and any of these steps may
end it. What it finds is what it finds with settled arguments, less the ignored kinds
(`ScanRequest.exists_settles`). How it ends is one of five cases (`ScanRequest.Ends`), and all that
is known of its outcome is read off them: the disk is written to in one of them only, after the
report has been put together.
-/

namespace DeclTags

/-- A search by name finds what has the name, where everything is found by its own. -/
theorem find?_name_eq_some_iff {α : Type} {all : List α} {nameOf : α → String} {name : String}
    {a : α} (h : ∀ a, all.find? (nameOf · == nameOf a) = some a) :
    all.find? (nameOf · == name) = some a ↔ nameOf a = name := by
  constructor
  · intro ha
    exact eq_of_beq (List.find?_some (p := (nameOf · == name)) ha)
  · rintro rfl
    exact h a

theorem ReportFormat.ofName?_eq_some_iff {name : String} {format : ReportFormat} :
    ofName? name = some format ↔ format.name = name :=
  find?_name_eq_some_iff fun format => by cases format <;> rfl

theorem DiagnosticKind.ofName?_eq_some_iff {name : String} {kind : DiagnosticKind} :
    ofName? name = some kind ↔ kind.name = name := find?_name_eq_some_iff ofName?_name

theorem FileScan.without_nil : FileScan.without [] = id := by
  funext f
  have hall : (f.result.diagnostics.filter fun d => !List.contains [] d.kind) =
      f.result.diagnostics := List.filter_eq_self.mpr fun _ _ => rfl
  rw [without, hall]
  rfl

namespace ScanRequest

variable {r : ScanRequest} {e : Environment} {format : ReportFormat} {kinds : List DiagnosticKind}
  {registry : Registry} {language : Option String}

/-! ## What is found -/

theorem ignoredKinds_eq_ok_iff :
    r.ignoredKinds = .ok kinds ↔ r.ignored = kinds.map DiagnosticKind.name := by
  rw [ignoredKinds, mapM_eq_ok_iff, ← List.forall₂_eq_eq_eq, List.forall₂_map_right_iff]
  refine iff_of_eq (congrArg (List.Forall₂ · _ _) (funext₂ fun name kind => propext ?_))
  rw [@eq_comm _ name, ← DiagnosticKind.ofName?_eq_some_iff]
  cases DiagnosticKind.ofName? name <;> simp

/-- The arguments are in order, and this is what they ask for. -/
structure Settles (r : ScanRequest) (e : Environment) (format : ReportFormat)
    (kinds : List DiagnosticKind) (registry : Registry) (language : Option String) : Prop where
  format : r.reportFormat = .ok format
  kinds : r.ignoredKinds = .ok kinds
  languages : r.languages e = .ok (registry, language)

/-- What is found once the arguments are settled. -/
def found (r : ScanRequest) (e : Environment) (registry : Registry) (language : Option String) :
    Except ScanFault (Option (List FileScan)) := do
  let (base, files) ← r.files e registry
  if files.isEmpty then return none
  return some (← r.survey e registry language base files)

theorem findings_of_settles (h : r.Settles e format kinds registry language) :
    r.findings e = (r.found e registry language).map fun scans =>
      (format, scans.map (List.map (FileScan.without kinds))) := by
  rw [findings, h.format, h.kinds, found]
  simp only [bind, Except.bind, h.languages]
  cases r.files e registry with
  | error fault => rfl
  | ok found =>
    obtain ⟨base, files⟩ := found
    cases files with
    | nil => rfl
    | cons file files =>
      simp only [List.isEmpty_cons, Bool.false_eq_true, if_false]
      cases r.survey e registry language base (file :: files) <;> rfl

/-- Arguments that are not in order give nothing. -/
theorem findings_of_not_settles (h : ¬∃ format kinds registry language,
    r.Settles e format kinds registry language) : ∃ fault, r.findings e = .error fault := by
  rw [findings]
  cases hformat : r.reportFormat with
  | error fault => exact ⟨fault, rfl⟩
  | ok format =>
    cases hkinds : r.ignoredKinds with
    | error fault => exact ⟨fault, rfl⟩
    | ok kinds =>
      cases hlanguages : r.languages e with
      | error fault => exact ⟨fault, by simp only [bind, Except.bind]⟩
      | ok settled => exact absurd ⟨format, kinds, _, _, hformat, hkinds, hlanguages⟩ h

/-- What is found is found with settled arguments. -/
theorem exists_settles {reported : Option (List FileScan)}
    (h : r.findings e = .ok (format, reported)) :
    ∃ kinds registry language scans, r.Settles e format kinds registry language ∧
      r.found e registry language = .ok scans ∧
      reported = scans.map (List.map (FileScan.without kinds)) := by
  by_cases hsettles : ∃ format kinds registry language, r.Settles e format kinds registry language
  · obtain ⟨format', kinds, registry, language, hsettles⟩ := hsettles
    rw [findings_of_settles hsettles] at h
    cases hfound : r.found e registry language with
    | error fault =>
      rw [hfound] at h
      cases h
    | ok scans =>
      rw [hfound] at h
      cases h
      exact ⟨kinds, registry, language, scans, hsettles, hfound, rfl⟩
  · obtain ⟨fault, hfault⟩ := findings_of_not_settles hsettles
    cases hfault.symm.trans h

/-! ## How a scan ends -/

/-- The ways in which a scan ends. -/
inductive Ends (r : ScanRequest) (e : Environment) : Outcome → Prop
  | failed {fault : ScanFault} (hfindings : r.findings e = .error fault) :
      Ends r e (.failed e fault.message)
  | nothingFound {format : ReportFormat} (hfindings : r.findings e = .ok (format, none)) :
      Ends r e { status := .success, stderr := "Warning: no files to scan\n", disk := e.disk }
  | printed {format : ReportFormat} {scans : List FileScan}
      (hfindings : r.findings e = .ok (format, some scans)) (houtput : r.output = none) :
      Ends r e
        { status := r.status scans, stdout := format.render false r.path scans, disk := e.disk }
  | written {format : ReportFormat} {scans : List FileScan} {path : String} {disk : Disk}
      (hfindings : r.findings e = .ok (format, some scans)) (houtput : r.output = some path)
      (hwrite : e.disk.write e.cwd path
        (Text.bytesOf (format.render false r.path scans).toList) = .ok disk) :
      Ends r e { status := r.status scans, disk := disk }
  | unwritable {format : ReportFormat} {scans : List FileScan} {path : String} {fault : DiskFault}
      (hfindings : r.findings e = .ok (format, some scans)) (houtput : r.output = some path)
      (hwrite : e.disk.write e.cwd path
        (Text.bytesOf (format.render false r.path scans).toList) = .error fault) :
      Ends r e (.failed e (ScanFault.unwritable fault).message)

theorem run_ends (r : ScanRequest) (e : Environment) : r.Ends e (r.run e) := by
  rw [run]
  cases hfindings : r.findings e with
  | error fault => exact .failed hfindings
  | ok found =>
    obtain ⟨format, _ | scans⟩ := found
    · exact .nothingFound hfindings
    · simp only [report]
      cases houtput : r.output with
      | none => exact .printed hfindings houtput
      | some path =>
        cases hwrite : e.disk.write e.cwd path
            (Text.bytesOf (format.render false r.path scans).toList) with
        | ok disk =>
          simp only [hwrite]
          exact .written hfindings houtput hwrite
        | error fault =>
          simp only [hwrite]
          exact .unwritable hfindings houtput hwrite

theorem status_ne_failure (r : ScanRequest) (scans : List FileScan) :
    r.status scans ≠ .failure := by
  rw [status]
  split <;> nofun

/-- A scan does not fail if there is nothing to scan, or the report can be put where it is asked
for. -/
theorem run_ne_failure_iff : (r.run e).status ≠ .failure ↔
    (∃ format, r.findings e = .ok (format, none)) ∨
      ∃ format scans, r.findings e = .ok (format, some scans) ∧
        ∀ path, r.output = some path →
          ∃ location, e.disk.writeLocation e.cwd path = .ok location := by
  have hends := r.run_ends e
  generalize r.run e = outcome at hends ⊢
  cases hends with
  | failed hfindings => exact iff_of_false (fun h => h rfl) (by simp [hfindings])
  | @nothingFound format hfindings => exact iff_of_true nofun (.inl ⟨format, hfindings⟩)
  | @printed format scans hfindings houtput =>
    refine iff_of_true (r.status_ne_failure scans) (.inr ⟨format, scans, hfindings, ?_⟩)
    intro path hpath
    cases houtput.symm.trans hpath
  | @written format scans path disk hfindings houtput hwrite =>
    refine iff_of_true (r.status_ne_failure scans) (.inr ⟨format, scans, hfindings, ?_⟩)
    intro other hother
    cases houtput.symm.trans hother
    obtain ⟨location, hlocation, -⟩ := Disk.write_eq_ok_iff.mp hwrite
    exact ⟨location, hlocation⟩
  | @unwritable format scans path fault hfindings houtput hwrite =>
    refine iff_of_false (fun h => h rfl) ?_
    rintro (⟨format, hnone⟩ | ⟨format, scans, -, hplace⟩)
    · cases hfindings.symm.trans hnone
    · obtain ⟨location, hlocation⟩ := hplace path houtput
      cases (Disk.write_eq_ok_iff.mpr ⟨location, hlocation, rfl⟩).symm.trans hwrite

/-- How a scan ends that has something to report: the report is printed or written. -/
theorem run_of_findings {scans : List FileScan} (h : (r.run e).status ≠ .failure)
    (hfindings : r.findings e = .ok (format, some scans)) :
    r.output = none ∧ r.run e =
        { status := r.status scans, stdout := format.render false r.path scans, disk := e.disk } ∨
      ∃ path disk, r.output = some path ∧
        e.disk.write e.cwd path (Text.bytesOf (format.render false r.path scans).toList) =
          .ok disk ∧
        r.run e = { status := r.status scans, disk } := by
  have hends := r.run_ends e
  generalize r.run e = outcome at h hends ⊢
  cases hends with
  | failed => exact absurd rfl h
  | unwritable => exact absurd rfl h
  | nothingFound hnone => cases hnone.symm.trans hfindings
  | printed hfound houtput =>
    cases hfound.symm.trans hfindings
    exact .inl ⟨houtput, rfl⟩
  | written hfound houtput hwrite =>
    cases hfound.symm.trans hfindings
    exact .inr ⟨_, _, houtput, hwrite, rfl⟩

theorem status_of_findings {scans : List FileScan} (h : (r.run e).status ≠ .failure)
    (hfindings : r.findings e = .ok (format, some scans)) :
    (r.run e).status = r.status scans ∧ (r.run e).stderr = "" := by
  obtain ⟨-, hrun⟩ | ⟨_, _, -, -, hrun⟩ := run_of_findings h hfindings
  · rw [hrun]
    exact ⟨rfl, rfl⟩
  · rw [hrun]
    exact ⟨rfl, rfl⟩

/-- The report, where the scan has put it. -/
def reported (r : ScanRequest) (e : Environment) : Except DiskFault (List UInt8) :=
  match r.output with
  | none => .ok (Text.bytesOf (r.run e).stdout.toList)
  | some path => (r.run e).disk.readBytes e.cwd path

theorem reported_eq {scans : List FileScan} (h : (r.run e).status ≠ .failure)
    (hfindings : r.findings e = .ok (format, some scans)) :
    r.reported e = .ok (Text.bytesOf (format.render false r.path scans).toList) := by
  rw [reported]
  obtain ⟨houtput, hrun⟩ | ⟨path, disk, houtput, hwrite, hrun⟩ := run_of_findings h hfindings
  · rw [houtput, hrun]
  · rw [houtput, hrun]
    exact Disk.readBytes_of_write hwrite

/-- What is printed if no file is asked for. -/
theorem run_of_output_eq_none {scans : List FileScan}
    (hfindings : r.findings e = .ok (format, some scans)) (houtput : r.output = none) :
    r.run e =
      { status := r.status scans, stdout := format.render false r.path scans, disk := e.disk } := by
  rw [run, hfindings]
  simp only [report, houtput]

end ScanRequest

/-! ## One file -/

/-- The surroundings with one file `a.java`. -/
def Environment.ofJava (source : List Char) : Environment where
  disk := .ofText "a.java" source
  cwd := []
  userDirectory := none

/-- What a scan of a file of Java finds. -/
theorem findings_of_java {r : ScanRequest} {source : List Char} {format : ReportFormat}
    {kinds : List DiagnosticKind} (hpath : r.path = "/a.java") (hprofile : r.profile = none)
    (hlanguage : r.language = none) (htypes : r.types = false) (hexcludes : r.excludes = [])
    (hformat : r.format = format.name) (hkinds : r.ignored = kinds.map DiagnosticKind.name)
    (hdecode : Text.decode (Text.bytesOf source) = .ok source) :
    r.findings (.ofJava source) = .ok (format, some
      [FileScan.without kinds ⟨"a.java", "java", scan (.ofProfile .java) source⟩]) := by
  have hsettles : r.Settles (.ofJava source) format kinds ({} : Registry).withBuiltins none := by
    refine ⟨?_, ScanRequest.ignoredKinds_eq_ok_iff.mpr hkinds, ?_⟩
    · rw [ScanRequest.reportFormat, hformat]
      cases format <;> rfl
    · rw [ScanRequest.languages, hprofile, hlanguage]
      rfl
  have hlookup : (Disk.ofText "a.java" source).root.lookup "a.java" =
      some (.file (Text.bytesOf source)) := by simp [Disk.ofText]
  have hlocation : (Disk.ofText "a.java" source).resolve [] "/a.java" = .ok ["a.java"] :=
    Disk.resolve_of_lookup "a.java" hlookup (by decide +kernel) (by decide +kernel) (by decide)
  have hread : (Disk.ofText "a.java" source).readBytes [] "/a.java" = .ok (Text.bytesOf source) :=
    Disk.readBytes_of_lookup "a.java" hlookup (by decide +kernel) (by decide +kernel) (by decide)
  have hfile : (Disk.ofText "a.java" source).hasDirectory ["a.java"] = false := by
    simp [Disk.hasDirectory, Disk.entry?, Disk.entryIn, hlookup, DiskEntry.isDirectory]
  have hfiles : r.files (.ofJava source) ({} : Registry).withBuiltins = .ok ("/", ["/a.java"]) := by
    rw [ScanRequest.files, hpath]
    have hbase : Disk.pathOf ["a.java"].dropLast = "/" := by decide +kernel
    have hwhole : Disk.pathOf ["a.java"] = "/a.java" := by decide +kernel
    simp only [Environment.ofJava, hlocation, Except.mapError, bind, Except.bind, hfile, hbase,
      hwhole]
    rfl
  have hsurvey : r.survey (.ofJava source) ({} : Registry).withBuiltins none "/" ["/a.java"] =
      .ok [⟨"a.java", "java", scan (.ofProfile .java) source⟩] := by
    have hlanguage : ∃ l, ({} : Registry).withBuiltins.forExtension? "java" = some l ∧
        l.name = "java" ∧ l.grammar = .ofProfile .java := by decide +kernel
    obtain ⟨l, hl, hname, hgrammar⟩ := hlanguage
    have hscan : scanBytes (.ofProfile .java) (Text.bytesOf source) =
        .ok (scan (.ofProfile .java) source) := by rw [scanBytes, hdecode]
    have hrelative : Path.relativeTo "/" "/a.java" = "a.java" := by decide +kernel
    have hrun : ({ base := "/" } : Survey).run ({} : Registry).withBuiltins
        (.ofText "a.java" source) [] ["/a.java"] =
          .ok [⟨"a.java", "java", scan (.ofProfile .java) source⟩] :=
      Survey.run_of_isScanOf rfl ⟨hrelative.symm, rfl, l, _, ⟨"java", by decide +kernel, hl⟩,
        hname.symm, hread, by rwa [Survey.grammarFor, hgrammar]⟩
    rw [ScanRequest.survey, hexcludes, htypes]
    have hexclude : ({ base := "/" } : Survey).exclude [] = .ok { base := "/" } := rfl
    simp only [Environment.ofJava, hexclude, Except.mapError, bind, Except.bind, hrun]
  rw [ScanRequest.findings_of_settles hsettles, ScanRequest.found, hfiles]
  simp only [bind, Except.bind, hsurvey]
  rfl

/-! ## What the disk is afterwards -/

/-- **A scan changes nothing but the file that its report goes to.** A scan that fails leaves the
disk as it is. Any other leaves everything as it is at locations other than the one that the path of
the output leads to, links being followed. If no output is named or there is nothing to scan, then
the whole disk stays as it is. Otherwise the path leads to the report afterwards: that is the report
on the disk as it was before, which the same scan would have printed without an output. -/
theorem scan_changes_output_only (r : ScanRequest) (e : Environment) :
    ((r.run e).status = .failure → (r.run e).disk = e.disk) ∧
    ((r.run e).status ≠ .failure →
      (∀ other, (∀ path, r.output = some path → e.disk.writeLocation e.cwd path ≠ .ok other) →
        (r.run e).disk.look other = e.disk.look other) ∧
      ((r.run e).disk = e.disk ∧
          (r.output = none ∨ ∃ format, r.findings e = .ok (format, none)) ∨
        ∃ path format scans, r.output = some path ∧ r.findings e = .ok (format, some scans) ∧
          (r.run e).disk.readBytes e.cwd path =
            .ok (Text.bytesOf (format.render false r.path scans).toList) ∧
          ({ r with output := none }.run e).stdout = format.render false r.path scans)) := by
  have hends := r.run_ends e
  generalize r.run e = outcome at hends ⊢
  cases hends with
  | failed hfindings => exact ⟨fun _ => rfl, fun h => absurd rfl h⟩
  | nothingFound hfindings =>
    exact ⟨fun _ => rfl, fun _ => ⟨fun _ _ => rfl, .inl ⟨rfl, .inr ⟨_, hfindings⟩⟩⟩⟩
  | printed hfindings houtput =>
    exact ⟨fun _ => rfl, fun _ => ⟨fun _ _ => rfl, .inl ⟨rfl, .inl houtput⟩⟩⟩
  | @written format scans path disk hfindings houtput hwrite =>
    refine ⟨fun h => absurd h (r.status_ne_failure scans), fun _ => ⟨?others, .inr ?report⟩⟩
    case others =>
      exact fun other hother => Disk.look_of_write hwrite (hother path houtput)
    case report =>
      -- where the report goes has no part in what is found
      have hfindings' : { r with output := none }.findings e = .ok (format, some scans) := hfindings
      refine ⟨path, format, scans, houtput, hfindings, Disk.readBytes_of_write hwrite, ?_⟩
      rw [ScanRequest.run_of_output_eq_none hfindings' rfl]
  | unwritable hfindings houtput hwrite => exact ⟨fun _ => rfl, fun h => absurd rfl h⟩

/-- A report that goes to the scanned file itself is the report on the class that was in it. -/
theorem scan_changes_output_only_of_own_file :
    let source := "class A \x7b void f() \x7b \x7d \x7d".toList
    let r : ScanRequest := { path := "/a.java", format := "json", output := some "/a.java" }
    let e : Environment := .ofJava source
    let report := Report.ofScans [⟨"a.java", "java", scan (.ofProfile .java) source⟩]
    (r.run e).status = .success ∧
      (r.run e).disk.readBytes [] "/a.java" = .ok (Text.bytesOf report.text.toList) ∧
      ∀ other, other ≠ ["a.java"] → (r.run e).disk.look other = e.disk.look other := by
  intro source r e report
  have hdecode : Text.decode (Text.bytesOf source) = .ok source :=
    toOption_eq_some_iff.mp (by decide +kernel)
  have hplace : e.disk.writeLocation [] "/a.java" = .ok ["a.java"] :=
    Disk.writeLocation_of_lookup "a.java" List.lookup_cons_self (by decide +kernel)
      (by decide +kernel) (by decide)
  have hfindings : r.findings e =
      .ok (.json, some [⟨"a.java", "java", scan (.ofProfile .java) source⟩]) := by
    have hfound : r.findings e = .ok (.json, some [FileScan.without []
        ⟨"a.java", "java", scan (.ofProfile .java) source⟩]) :=
      findings_of_java rfl rfl rfl rfl rfl rfl rfl hdecode
    rwa [FileScan.without_nil] at hfound
  have hcompleted : (r.run e).status ≠ .failure := by
    refine ScanRequest.run_ne_failure_iff.mpr (.inr ⟨_, _, hfindings, fun path hpath => ?_⟩)
    cases hpath
    exact ⟨_, hplace⟩
  obtain ⟨-, hchanges⟩ := scan_changes_output_only r e
  obtain ⟨hothers, ⟨-, hnone | ⟨format, hnone⟩⟩ | ⟨path, format, scans, hpath, hscans, hread, -⟩⟩ :=
    hchanges hcompleted
  · cases hnone
  · cases hfindings.symm.trans hnone
  · cases hpath
    cases hfindings.symm.trans hscans
    refine ⟨(ScanRequest.status_of_findings hcompleted hfindings).1, hread, fun other hother => ?_⟩
    refine hothers other fun path hpath heq => ?_
    cases hpath
    cases hplace.symm.trans heq
    exact hother rfl

end DeclTags
