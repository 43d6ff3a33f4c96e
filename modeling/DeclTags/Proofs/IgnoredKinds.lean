import DeclTags.Proofs.ScanOutcomes
import Mathlib.Data.List.Basic

set_option autoImplicit false

/-! # Ignored kinds and strictness

What is ignored is left out of the scans before they are reported, so a scan that ignores some kinds
is compared with the same scan without them (`ScanRequest.plain`). Both find the same files and the
same in them (`ScanRequest.exists_plain`), and the document on the one is the document on the other
with the diagnostics of these kinds deleted (`Report.ofScans_without`). The severity of a diagnostic
is kept beside its kind, so the status asks for the severity of what is left, and not for the kinds.
Strictness comes in with the status, when everything is written (`ScanRequest.run_withStrict`).
-/

namespace DeclTags

/-! ## Documents without some kinds of diagnostics -/

/-- What a document says of one file, without the diagnostics of some kinds. -/
def FileReport.without (kinds : List DiagnosticKind) (f : FileReport) : FileReport :=
  { f with diagnostics := f.diagnostics.filter fun d => !kinds.contains d.kind }

namespace Report

/-- The number of diagnostics of some kinds. -/
def countOf (kinds : List DiagnosticKind) (r : Report) : Nat :=
  (r.files.flatMap FileReport.diagnostics).countP fun d => kinds.contains d.kind

/-- The document with the diagnostics of some kinds deleted, and as many fewer of them counted. -/
def without (kinds : List DiagnosticKind) (r : Report) : Report :=
  { r with
    files := r.files.map (FileReport.without kinds)
    diagnosticCount := r.diagnosticCount - r.countOf kinds }

variable {kinds : List DiagnosticKind}

theorem symbolTotal_without (kinds : List DiagnosticKind) (scans : List FileScan) :
    symbolTotal (scans.map (FileScan.without kinds)) = symbolTotal scans := by
  rw [symbolTotal, symbolTotal, List.foldr_map]
  rfl

/-- What is left and what is deleted is what there was. -/
theorem diagnosticTotal_without (kinds : List DiagnosticKind) (scans : List FileScan) :
    diagnosticTotal (scans.map (FileScan.without kinds)) + (ofScans scans).countOf kinds =
      diagnosticTotal scans := by
  induction scans with
  | nil => rfl
  | cons f scans ih =>
      have hsplit := List.length_eq_length_filter_add (l := f.result.diagnostics)
        fun d => kinds.contains d.kind
      have hcount : (ofScans (f :: scans)).countOf kinds =
          (f.result.diagnostics.filter fun d => kinds.contains d.kind).length +
            (ofScans scans).countOf kinds := by
        rw [← List.countP_eq_length_filter]
        exact List.countP_append
      rw [hcount]
      show (f.result.diagnostics.filter fun d => !kinds.contains d.kind).length +
        diagnosticTotal (scans.map (FileScan.without kinds)) + _ =
          f.result.diagnostics.length + diagnosticTotal scans
      omega

/-- **The document on scans without some kinds is the document on the scans, without them.** -/
theorem ofScans_without (kinds : List DiagnosticKind) (scans : List FileScan) :
    ofScans (scans.map (FileScan.without kinds)) = (ofScans scans).without kinds := by
  have htotal := diagnosticTotal_without kinds scans
  have hcount : diagnosticTotal (scans.map (FileScan.without kinds)) =
      (ofScans scans).diagnosticCount - (ofScans scans).countOf kinds := by
    show _ = diagnosticTotal scans - _
    omega
  rw [without, ← hcount]
  simp only [ofScans, List.map_map, symbolTotal_without]
  rfl

end Report

namespace ScanRequest

variable {r : ScanRequest} {e : Environment} {format : ReportFormat} {kinds : List DiagnosticKind}

/-- The arguments without kinds to ignore. -/
def plain (r : ScanRequest) : ScanRequest := { r with ignored := [] }

/-- What is reported is what is reported without kinds to ignore, those left out. -/
theorem exists_plain {reported : Option (List FileScan)}
    (h : r.findings e = .ok (format, reported)) :
    ∃ kinds scans, r.ignored = kinds.map DiagnosticKind.name ∧
      r.plain.findings e = .ok (format, scans) ∧
      reported = scans.map (List.map (FileScan.without kinds)) := by
  obtain ⟨kinds, registry, language, scans, hsettles, hfound, rfl⟩ := exists_settles h
  have hplain : r.plain.Settles e format [] registry language :=
    ⟨hsettles.format, rfl, hsettles.languages⟩
  refine ⟨kinds, scans, ignoredKinds_eq_ok_iff.mp hsettles.kinds, ?_, rfl⟩
  rw [findings_of_settles hplain]
  show (r.found e registry language).map _ = _
  rw [hfound]
  cases scans <;> simp [Except.map, FileScan.without_nil]

theorem hasWarnings_iff {result : ScanResult} :
    result.hasWarnings = true ↔ ∃ d ∈ result.diagnostics, d.severity = .warning := by
  rw [ScanResult.hasWarnings, decide_eq_true_iff, ScanResult.warningCount, List.countP_pos_iff]
  simp

theorem status_eq_warned_iff {scans : List FileScan} : r.status scans = .warned ↔
    r.strict = true ∧ ∃ f ∈ scans, ∃ d ∈ f.result.diagnostics, d.severity = .warning := by
  rw [status]
  simp only [Bool.and_eq_true, List.any_eq_true, hasWarnings_iff]
  split
  · next h => exact iff_of_true rfl h
  · next h => exact iff_of_false (by decide) h

/-- Some scan has a warning of a kind that is not left out. -/
theorem exists_warning_without {scans : List FileScan} :
    (∃ f ∈ scans.map (FileScan.without kinds), ∃ d ∈ f.result.diagnostics, d.severity = .warning) ↔
      ∃ f ∈ scans, ∃ d ∈ f.result.diagnostics, d.severity = .warning ∧ d.kind ∉ kinds := by
  have hkept : ∀ f d, d ∈ (FileScan.without kinds f).result.diagnostics ↔
      d ∈ f.result.diagnostics ∧ d.kind ∉ kinds := by
    intro f d
    rw [FileScan.without, List.mem_filter]
    simp
  constructor
  · rintro ⟨_, hmem, d, hd, hwarning⟩
    obtain ⟨f, hf, rfl⟩ := List.mem_map.mp hmem
    obtain ⟨hd, hkind⟩ := (hkept f d).mp hd
    exact ⟨f, hf, d, hd, hwarning, hkind⟩
  · rintro ⟨f, hf, d, hd, hwarning, hkind⟩
    exact ⟨_, List.mem_map_of_mem hf, d, (hkept f d).mpr ⟨hd, hkind⟩, hwarning⟩

/-- Strictness changes nothing but the status. -/
theorem run_withStrict (r : ScanRequest) (e : Environment) (strict : Bool) :
    let other := { r with strict }
    (other.run e).stdout = (r.run e).stdout ∧ (other.run e).stderr = (r.run e).stderr ∧
      (other.run e).disk = (r.run e).disk := by
  intro other
  have hfindings : other.findings e = r.findings e := rfl
  rw [run, run, hfindings]
  rcases r.findings e with fault | ⟨format, _ | scans⟩
  · exact ⟨rfl, rfl, rfl⟩
  · exact ⟨rfl, rfl, rfl⟩
  · have houtput : other.output = r.output := rfl
    have hpath : other.path = r.path := rfl
    simp only [report, houtput, hpath]
    cases r.output with
    | none => exact ⟨rfl, rfl, rfl⟩
    | some path =>
      cases hwrite : e.disk.write e.cwd path
          (Text.bytesOf (format.render false r.path scans).toList) <;>
        simp [hwrite, Outcome.failed]

theorem format_of_json {reported : Option (List FileScan)} (hformat : r.format = "json")
    (h : r.findings e = .ok (format, reported)) : format = .json := by
  obtain ⟨_, _, _, _, hsettles, -⟩ := exists_settles h
  have hsettled := hsettles.format
  rw [reportFormat, hformat] at hsettled
  exact (Except.ok.inj hsettled).symm

theorem reported_of_json {scans : List FileScan} (hformat : r.format = "json")
    (h : (r.run e).status ≠ .failure) (hfindings : r.findings e = .ok (format, some scans)) :
    r.reported e = .ok (Text.bytesOf (Report.ofScans scans).text.toList) := by
  cases format_of_json hformat hfindings
  rw [reported_eq h hfindings, ReportFormat.render]

/-- The code of a scan that does not fail is one just if it ends with a warning. -/
theorem code_of_findings {scans : List FileScan} (h : (r.run e).status ≠ .failure)
    (hfindings : r.findings e = .ok (format, some scans)) :
    (r.run e).status.code = if r.status scans = .warned then 1 else 0 := by
  rw [(status_of_findings h hfindings).1, status]
  split <;> rfl

end ScanRequest

/-- **Ignored kinds and strictness act only where they should.** A scan that does not fail does not
fail either without kinds to ignore. If nothing is found there, then nothing is found here. Else the
reported JSON is the document on all scans with the diagnostics of these kinds deleted and as many
fewer of them counted, and everything else in it as it was. Strictness changes neither what is
printed nor what is written. The code is one just if the scan is strict and some file has a warning
of a kind that is not ignored, and zero otherwise. -/
theorem ignore_and_strict_exact (r : ScanRequest) (e : Environment)
    (hcompleted : (r.run e).status ≠ .failure) :
    ∃ kinds, r.ignored = kinds.map DiagnosticKind.name ∧ (r.plain.run e).status ≠ .failure ∧
      ((∃ format, r.plain.findings e = .ok (format, none)) ∧ r.run e = r.plain.run e ∨
        ∃ format scans, r.plain.findings e = .ok (format, some scans) ∧
          (r.run e).stderr = (r.plain.run e).stderr ∧
          (r.format = "json" →
            r.plain.reported e = .ok (Text.bytesOf (Report.ofScans scans).text.toList) ∧
            r.reported e =
              .ok (Text.bytesOf ((Report.ofScans scans).without kinds).text.toList))) ∧
      (∀ strict, let other := { r with strict }
        (other.run e).stdout = (r.run e).stdout ∧ (other.run e).stderr = (r.run e).stderr ∧
          (other.run e).disk = (r.run e).disk) ∧
      ((r.run e).status.code = 1 ↔ r.strict = true ∧
        ∃ format scans, r.plain.findings e = .ok (format, some scans) ∧
          ∃ f ∈ scans, ∃ d ∈ f.result.diagnostics, d.severity = .warning ∧ d.kind ∉ kinds) ∧
      ((r.run e).status.code ≠ 1 → (r.run e).status.code = 0) := by
  -- what is found decides: either nothing in both scans, or the same up to the ignored kinds
  rcases ScanRequest.run_ne_failure_iff.mp hcompleted with
    ⟨format, hfindings⟩ | ⟨format, found, hfindings, hplace⟩
  · obtain ⟨kinds, _ | scans, hkinds, hplain, hnone⟩ := ScanRequest.exists_plain hfindings
    · have hsame : r.run e = r.plain.run e := by
        rw [ScanRequest.run, ScanRequest.run, hfindings, hplain]
      have hstatus : (r.run e).status = .success := by
        rw [ScanRequest.run, hfindings]
      refine ⟨kinds, hkinds, hsame ▸ hcompleted, .inl ⟨⟨format, hplain⟩, hsame⟩, r.run_withStrict e,
        ?_, ?_⟩
      · rw [hstatus]
        refine iff_of_false (by decide) ?_
        rintro ⟨-, format', scans, hscans, -⟩
        cases hplain.symm.trans hscans
      · rw [hstatus]
        exact fun _ => rfl
    · cases hnone
  · obtain ⟨kinds, _ | scans, hkinds, hplain, hfound⟩ := ScanRequest.exists_plain hfindings
    · cases hfound
    · cases hfound
      have hcompleted' : (r.plain.run e).status ≠ .failure :=
        ScanRequest.run_ne_failure_iff.mpr (.inr ⟨format, scans, hplain, hplace⟩)
      have hcode := ScanRequest.code_of_findings hcompleted hfindings
      simp only [ScanRequest.status_eq_warned_iff, ScanRequest.exists_warning_without] at hcode
      refine ⟨kinds, hkinds, hcompleted', .inr ⟨format, scans, hplain, ?stderr, ?json⟩,
        r.run_withStrict e, ?warned, ?code⟩
      case stderr =>
        rw [(ScanRequest.status_of_findings hcompleted hfindings).2,
          (ScanRequest.status_of_findings hcompleted' hplain).2]
      case json =>
        intro hformat
        rw [← Report.ofScans_without]
        exact ⟨ScanRequest.reported_of_json hformat hcompleted' hplain,
          ScanRequest.reported_of_json hformat hcompleted hfindings⟩
      case warned =>
        rw [hcode, hplain]
        simp
      case code =>
        rw [hcode]
        split
        · exact fun h => absurd rfl h
        · exact fun _ => rfl

/-- A strict scan of a class that is never closed: what is ignored is neither reported nor held
against it. -/
theorem ignore_and_strict_exact_of_open_class :
    let r : ScanRequest :=
      { path := "/a.java", format := "json", ignored := ["unbalanced_braces"], strict := true }
    let e : Environment := .ofJava "class A \x7b".toList
    let f : FileScan := ⟨"a.java", "java", scan (.ofProfile .java) "class A \x7b".toList⟩
    let document := Report.ofScans [f]
    (r.run e).status ≠ .failure ∧
      (r.plain.run e).status.code = 1 ∧ document.diagnosticCount = 1 ∧
      r.plain.reported e = .ok (Text.bytesOf document.text.toList) ∧
      (r.run e).status.code = 0 ∧ (document.without [.unbalancedBraces]).diagnosticCount = 0 ∧
      r.reported e = .ok (Text.bytesOf (document.without [.unbalancedBraces]).text.toList) := by
  intro r e f document
  have hdecode : Text.decode (Text.bytesOf "class A \x7b".toList) = .ok "class A \x7b".toList :=
    toOption_eq_some_iff.mp (by decide +kernel)
  have hdiagnostics : f.result.diagnostics =
      [.ofKind .unbalancedBraces 1 (Scan.openScopesMessage 1 1)] := by decide +kernel
  have hfindings : r.findings e = .ok (.json, some [FileScan.without [.unbalancedBraces] f]) :=
    findings_of_java rfl rfl rfl rfl rfl rfl rfl hdecode
  have hplain : r.plain.findings e = .ok (.json, some [FileScan.without [] f]) :=
    findings_of_java rfl rfl rfl rfl rfl rfl rfl hdecode
  rw [FileScan.without_nil, id_eq] at hplain
  have hcompleted : (r.run e).status ≠ .failure :=
    ScanRequest.run_ne_failure_iff.mpr (.inr ⟨_, _, hfindings, nofun⟩)
  obtain ⟨kinds, hkinds, hcompleted', hreported, -, hwarned, hcode⟩ :=
    ignore_and_strict_exact r e hcompleted
  obtain ⟨none, hnone, -, -, -, hwarned', -⟩ := ignore_and_strict_exact r.plain e hcompleted'
  obtain rfl : kinds = [.unbalancedBraces] :=
    Except.ok.inj ((ScanRequest.ignoredKinds_eq_ok_iff.mpr hkinds).symm.trans rfl)
  obtain rfl : none = [] := List.map_eq_nil_iff.mp hnone.symm
  obtain ⟨⟨format, hfound⟩, -⟩ | ⟨format, scans, hfound, -, hjson⟩ := hreported
  · cases hplain.symm.trans hfound
  cases hplain.symm.trans hfound
  obtain ⟨hdocument, hrest⟩ := hjson rfl
  refine ⟨hcompleted, hwarned'.mpr ⟨rfl, .json, _, hplain, _, List.mem_singleton_self _, ?_⟩,
    by decide +kernel, hdocument, hcode fun h => ?_, by decide +kernel, hrest⟩
  · exact ⟨_, hdiagnostics ▸ List.mem_singleton_self _, rfl, nofun⟩
  · obtain ⟨-, format, scans, hfound, f, hf, d, hd, -, hkind⟩ := hwarned.mp h
    cases hplain.symm.trans hfound
    cases List.mem_singleton.mp hf
    rw [hdiagnostics] at hd
    cases List.mem_singleton.mp hd
    exact hkind (List.mem_singleton_self _)

end DeclTags
