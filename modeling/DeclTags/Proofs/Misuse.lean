import DeclTags.Proofs.Registrations
import DeclTags.Proofs.ScanOutcomes

set_option autoImplicit false

/-! # Arguments that are refused

What the arguments of a scan have to be is said of each by itself (`ScanRequest.InOrder`), and just
such arguments are settled (`ScanRequest.inOrder_iff`). They are settled before a file is looked
for, so arguments that are not in order are refused, whatever there is to scan. Only the patterns
are read later, when files have been found. A set of patterns is refused if one of them is no
pattern (`GlobSet.exists_parse_eq_ok_iff`), but a search that finds nothing has ended the scan
before.
-/

namespace DeclTags

/-! ## Patterns -/

namespace GlobSet

/-- The pattern is matched by its expression, and that is nested too deeply. -/
def IsTooDeep (g : Glob) : Prop := g.kind ≠ .text ∧ g.isTooDeep = true

theorem fault?_eq_none_iff {globs : List Glob} :
    fault? globs = none ↔ ∀ g ∈ globs, ¬IsTooDeep g := by
  rw [fault?]
  cases hfound : globs.find? fun g => g.kind = .extension && g.isTooDeep with
  | some g =>
    have hdeep := List.find?_some hfound
    refine iff_of_false nofun fun h => h g (List.mem_of_find?_eq_some hfound) ?_
    simp only [Bool.and_eq_true, decide_eq_true_eq] at hdeep
    exact ⟨by rw [hdeep.1]; nofun, hdeep.2⟩
  | none =>
    simp only [Option.map_eq_none_iff, List.findIdx?_eq_none_iff, List.mem_filter,
      decide_eq_true_eq, and_imp]
    -- behind those with an extension only the general ones are left to look at
    refine forall₂_congr fun g hg => ?_
    have hextension := List.find?_eq_none.mp hfound g hg
    cases hkind : g.kind <;> simp_all [IsTooDeep]

/-- A set can be made of some patterns just if each can be read and is not nested too deeply. -/
theorem exists_parse_eq_ok_iff {patterns : List String} : (∃ s, parse patterns = .ok s) ↔
    ∀ pattern ∈ patterns, ∃ g, Glob.parse pattern = .ok g ∧ ¬IsTooDeep g := by
  have hread (pattern : String) (g : Glob) :
      (Glob.parse pattern).mapError (GlobSetFault.unreadable pattern ·) = .ok g ↔
        Glob.parse pattern = .ok g := by
    cases Glob.parse pattern <;> simp [Except.mapError]
  rw [← exists_forall₂_iff]
  simp only [← fault?_eq_none_iff, ← hread, ← mapM_eq_ok_iff, parse]
  cases patterns.mapM fun pattern =>
      (Glob.parse pattern).mapError (GlobSetFault.unreadable pattern ·) with
  | error fault => simp [bind, Except.bind]
  | ok globs => cases hfault : fault? globs <;> simp [bind, Except.bind, pure, Except.pure, hfault]

end GlobSet

namespace ScanRequest

variable {r : ScanRequest} {e : Environment}

/-! ## What the arguments have to be -/

/-- The languages that are known include one of this name: it is registered from the start, or it is
the one of the given profile. -/
def Knows (r : ScanRequest) (e : Environment) (name : String) : Prop :=
  name ∈ e.registry.names ∨
    ∃ path p, r.profile = some path ∧ Profile.load e.disk e.cwd path = .ok p ∧ p.name = name

/-- The arguments are in order, patterns aside. -/
structure InOrder (r : ScanRequest) (e : Environment) : Prop where
  format : ∃ format : ReportFormat, format.name = r.format
  kinds : ∀ name ∈ r.ignored, ∃ kind : DiagnosticKind, kind.name = name
  profile : ∀ path, r.profile = some path →
    ∃ p, Profile.load e.disk e.cwd path = .ok p ∧ p.Valid
  language : ∀ name, r.language = some name → r.Knows e name

theorem exists_reportFormat_iff :
    (∃ format, r.reportFormat = .ok format) ↔ ∃ format : ReportFormat, format.name = r.format := by
  simp only [reportFormat, ← ReportFormat.ofName?_eq_some_iff]
  cases ReportFormat.ofName? r.format <;> simp

theorem exists_ignoredKinds_iff :
    (∃ kinds, r.ignoredKinds = .ok kinds) ↔
      ∀ name ∈ r.ignored, ∃ kind : DiagnosticKind, kind.name = name := by
  rw [ignoredKinds, exists_mapM_eq_ok_iff]
  refine forall₂_congr fun name _ => ?_
  simp only [← DiagnosticKind.ofName?_eq_some_iff]
  cases DiagnosticKind.ofName? name <;> simp

/-- The languages with the one that is asked for, if one is. -/
def ask (registry : Registry) (language : Option String) :
    Except ScanFault (Registry × Option String) :=
  match language with
  | none => .ok (registry, none)
  | some name =>
    ((registry.require name).mapError fun u => .unknownLanguage u.name).map fun _ =>
      (registry, some name)

theorem exists_ask_iff {registry : Registry} {language : Option String} :
    (∃ settled, ask registry language = .ok settled) ↔
      ∀ name, language = some name → name ∈ registry.names := by
  cases language with
  | none => exact iff_of_true ⟨_, rfl⟩ nofun
  | some name =>
    simp only [ask, Option.some.injEq, forall_eq', ← Registry.exists_require_iff]
    cases registry.require name <;> simp [Except.mapError, Except.map]

theorem languages_of_profile_eq_none (h : r.profile = none) :
    r.languages e = ask e.registry r.language := by
  rw [languages, h, pure_bind]
  cases r.language <;> rfl

theorem languages_of_load {path : String} {p : Profile} (h : r.profile = some path)
    (hload : Profile.load e.disk e.cwd path = .ok p) (hvalid : p.Valid) :
    r.languages e =
      ask (e.registry.insert (.ofProfile p hvalid)) (r.language <|> some p.name) := by
  rw [languages, h]
  simp only [hload, Registry.register_of_valid e.registry hvalid, Except.mapError, bind,
    Except.bind, pure, Except.pure]
  cases r.language <;> rfl

theorem languages_of_not_loaded {path : String} (h : r.profile = some path)
    (hload : ¬∃ p, Profile.load e.disk e.cwd path = .ok p ∧ p.Valid) :
    ∃ fault, r.languages e = .error fault := by
  rw [languages, h]
  cases hp : Profile.load e.disk e.cwd path with
  | error fault =>
    refine ⟨.badProfile fault, ?_⟩
    simp only [hp, Except.mapError, bind, Except.bind]
  | ok p =>
    obtain ⟨fault, hfault⟩ := Option.ne_none_iff_exists'.mp fun hnone => hload ⟨p, hp, hnone⟩
    refine ⟨.badProfile (.badText (.faulty p fault)), ?_⟩
    simp only [hp, Registry.register_eq_error_iff.mpr hfault, Except.mapError, bind, Except.bind]

theorem exists_languages_iff :
    (∃ settled, r.languages e = .ok settled) ↔
      (∀ path, r.profile = some path → ∃ p, Profile.load e.disk e.cwd path = .ok p ∧ p.Valid) ∧
        ∀ name, r.language = some name → r.Knows e name := by
  cases hprofile : r.profile with
  | none =>
    rw [languages_of_profile_eq_none hprofile, exists_ask_iff]
    simp [Knows, hprofile]
  | some path =>
    simp only [Option.some.injEq, forall_eq']
    by_cases hloaded : ∃ p, Profile.load e.disk e.cwd path = .ok p ∧ p.Valid
    · obtain ⟨p, hload, hvalid⟩ := hloaded
      have hknows (name : String) : r.Knows e name ↔
          name ∈ (e.registry.insert (.ofProfile p hvalid)).names := by
        simp [Knows, hprofile, hload, Registry.mem_names_insert]
      rw [languages_of_load hprofile hload hvalid, exists_ask_iff,
        and_iff_right ⟨p, hload, hvalid⟩]
      simp only [hknows]
      cases r.language with
      | none => simp [Registry.mem_names_insert]
      | some name => simp
    · obtain ⟨fault, hfault⟩ := languages_of_not_loaded hprofile hloaded
      exact iff_of_false (by simp [hfault]) fun h => hloaded h.1

/-- **Just the arguments that are in order are settled.** -/
theorem inOrder_iff : r.InOrder e ↔
    ∃ format kinds registry language, r.Settles e format kinds registry language := by
  constructor
  · rintro ⟨hformat, hkinds, hprofile, hlanguage⟩
    obtain ⟨format, hformat⟩ := exists_reportFormat_iff.mpr hformat
    obtain ⟨kinds, hkinds⟩ := exists_ignoredKinds_iff.mpr hkinds
    obtain ⟨⟨registry, language⟩, hlanguages⟩ := exists_languages_iff.mpr ⟨hprofile, hlanguage⟩
    exact ⟨format, kinds, registry, language, hformat, hkinds, hlanguages⟩
  · rintro ⟨format, kinds, registry, language, hformat, hkinds, hlanguages⟩
    obtain ⟨hprofile, hlanguage⟩ := exists_languages_iff.mp ⟨_, hlanguages⟩
    exact ⟨exists_reportFormat_iff.mp ⟨format, hformat⟩,
      exists_ignoredKinds_iff.mp ⟨kinds, hkinds⟩, hprofile, hlanguage⟩

/-! ## What there is to scan -/

/-- Some pattern cannot be read, or is nested too deeply. -/
def HasBadPattern (r : ScanRequest) : Prop :=
  ∃ pattern ∈ r.excludes, ∀ g, Glob.parse pattern = .ok g → GlobSet.IsTooDeep g

/-- The path leads to a directory, and a search finds no files in it. -/
def FindsNothing (r : ScanRequest) (e : Environment) : Prop :=
  ∃ registry language location, r.languages e = .ok (registry, language) ∧
    e.disk.resolve e.cwd r.path = .ok location ∧ e.disk.hasDirectory location = true ∧
    discover registry e.disk e.cwd (Disk.pathOf location) = .ok []

theorem survey_of_hasBadPattern (h : r.HasBadPattern) (e : Environment) (registry : Registry)
    (language : Option String) (base : String) (files : List String) :
    ∃ fault, r.survey e registry language base files = .error fault := by
  obtain ⟨pattern, hmem, hbad⟩ := h
  cases hparse : GlobSet.parse r.excludes with
  | ok s =>
    obtain ⟨g, hg, hdeep⟩ := GlobSet.exists_parse_eq_ok_iff.mp ⟨s, hparse⟩ pattern hmem
    exact absurd (hbad g hg) hdeep
  | error fault =>
    refine ⟨.badPatterns fault, ?_⟩
    simp only [survey, Survey.exclude, hparse, Except.map, Except.mapError, bind, Except.bind]

theorem files_eq_nil_iff {registry : Registry} :
    (∃ base, r.files e registry = .ok (base, [])) ↔ ∃ location,
      e.disk.resolve e.cwd r.path = .ok location ∧ e.disk.hasDirectory location = true ∧
        discover registry e.disk e.cwd (Disk.pathOf location) = .ok [] := by
  rw [files]
  cases e.disk.resolve e.cwd r.path with
  | error fault => simp [Except.mapError, bind, Except.bind]
  | ok location =>
    cases hdirectory : e.disk.hasDirectory location with
    | false => simp [Except.mapError, bind, Except.bind, pure, Except.pure, hdirectory]
    | true =>
      cases hfound : discover registry e.disk e.cwd (Disk.pathOf location) <;>
        simp [Except.mapError, bind, Except.bind, pure, Except.pure, hdirectory, hfound]

/-- Where nothing is found, the patterns are not read. -/
theorem run_of_findsNothing (h : r.InOrder e) (hnothing : r.FindsNothing e) :
    r.run e = { status := .success, stderr := "Warning: no files to scan\n", disk := e.disk } := by
  obtain ⟨format, kinds, registry, language, hsettles⟩ := inOrder_iff.mp h
  obtain ⟨registry', language', location, hlanguages, hfiles⟩ := hnothing
  cases hsettles.languages.symm.trans hlanguages
  obtain ⟨base, hfiles⟩ := files_eq_nil_iff.mpr ⟨location, hfiles⟩
  have hfound : r.found e registry language = .ok none := by
    rw [found, hfiles]
    rfl
  rw [run, findings_of_settles hsettles, hfound]
  rfl

theorem findings_of_hasBadPattern (hbad : r.HasBadPattern) (h : r.InOrder e)
    (hsome : ¬r.FindsNothing e) : ∃ fault, r.findings e = .error fault := by
  obtain ⟨format, kinds, registry, language, hsettles⟩ := inOrder_iff.mp h
  rw [findings_of_settles hsettles, found]
  cases hfiles : r.files e registry with
  | error fault => exact ⟨fault, rfl⟩
  | ok found =>
    obtain ⟨base, _ | ⟨file, files⟩⟩ := found
    · obtain ⟨location, hlocation⟩ := files_eq_nil_iff.mp ⟨base, hfiles⟩
      exact absurd ⟨registry, language, location, hsettles.languages, hlocation⟩ hsome
    · obtain ⟨fault, hfault⟩ :=
        survey_of_hasBadPattern hbad e registry language base (file :: files)
      refine ⟨fault, ?_⟩
      simp only [bind, Except.bind, List.isEmpty_cons, Bool.false_eq_true, if_false, hfault,
        Except.map]

end ScanRequest

/-- **Misuse is refused, whatever there is to scan, but for the patterns.** A scan with arguments
that are not in order or with a pattern that is none fails, with one exception: only a pattern is
wrong, and there are no files to scan. Then it ends as if the patterns were fine. -/
theorem misuse_refused_iff (r : ScanRequest) (e : Environment)
    (hmisuse : ¬r.InOrder e ∨ r.HasBadPattern) :
    ((r.run e).status.code = 2 ↔ ¬(r.InOrder e ∧ r.FindsNothing e)) ∧
      ((r.run e).status.code ≠ 2 → r.run e =
        { status := .success, stderr := "Warning: no files to scan\n", disk := e.disk }) := by
  by_cases hnothing : r.InOrder e ∧ r.FindsNothing e
  · have hrun := ScanRequest.run_of_findsNothing hnothing.1 hnothing.2
    refine ⟨iff_of_false ?_ (not_not_intro hnothing), fun _ => hrun⟩
    rw [hrun]
    nofun
  · -- either the arguments are not settled, or the survey of what is found refuses the patterns
    have hfailed : ∃ fault, r.findings e = .error fault := by
      by_cases horder : r.InOrder e
      · exact ScanRequest.findings_of_hasBadPattern (hmisuse.resolve_left (not_not_intro horder))
          horder fun h => hnothing ⟨horder, h⟩
      · exact ScanRequest.findings_of_not_settles fun h => horder (ScanRequest.inOrder_iff.mpr h)
    obtain ⟨fault, hfault⟩ := hfailed
    have hcode : (r.run e).status.code = 2 := by
      rw [ScanRequest.run, hfault]
      rfl
    exact ⟨iff_of_true hcode hnothing, fun h => absurd hcode h⟩

/-- A class that is not closed is no pattern. -/
theorem ScanRequest.hasBadPattern_of_mem {r : ScanRequest} (h : "[" ∈ r.excludes) :
    r.HasBadPattern := by
  refine ⟨"[", h, fun g hg => ?_⟩
  have hnone : (Glob.parse "[").toOption = none := by decide +kernel
  rw [hg] at hnone
  cases hnone

/-- The surroundings without a file. -/
def Environment.ofNothing : Environment where
  disk := {}
  cwd := []
  userDirectory := none

theorem ScanRequest.findsNothing_of_path {r : ScanRequest} (hpath : r.path = "/")
    (hprofile : r.profile = none) (hlanguage : r.language = none) :
    r.FindsNothing .ofNothing := by
  refine ⟨Environment.registry .ofNothing, none, [], ?_, hpath ▸ Disk.resolve_slash _ _, rfl,
    discover_of_empty _⟩
  rw [languages_of_profile_eq_none hprofile, hlanguage]
  rfl

/-- A pattern that is none is refused where there is a file, and is not where there is none. -/
theorem misuse_refused_of_class :
    let r : ScanRequest := { path := "/", excludes := ["["] }
    r.HasBadPattern ∧ (r.run (.ofJava [])).status.code = 2 ∧
      (r.run .ofNothing).status.code ≠ 2 := by
  intro r
  have horder : r.InOrder .ofNothing := ⟨⟨.listing, rfl⟩, nofun, nofun, nofun⟩
  have hbad : r.HasBadPattern := ScanRequest.hasBadPattern_of_mem (List.mem_singleton_self _)
  have hsome : ¬r.FindsNothing (.ofJava []) := by
    rintro ⟨registry, language, location, hlanguages, hlocation, -, hnone⟩
    cases hlanguages
    cases (Disk.resolve_slash _ _).symm.trans hlocation
    have hone : discover ({} : Registry).withBuiltins (.ofText "a.java" []) [] "/" =
        .ok ["/a.java"] :=
      discover_of_one (by decide +kernel) (by decide +kernel) (by decide +kernel) (by decide)
        (by decide +kernel)
    have hroot : Disk.pathOf [] = "/" := by decide +kernel
    rw [hroot] at hnone
    cases hone.symm.trans hnone
  refine ⟨hbad, (misuse_refused_iff r _ (.inr hbad)).1.mpr fun h => hsome h.2, fun h => ?_⟩
  exact (misuse_refused_iff r _ (.inr hbad)).1.mp h
    ⟨horder, ScanRequest.findsNothing_of_path rfl rfl rfl⟩

/-- **A pattern that is none is not always refused**: it is not where there are no files. -/
theorem bad_pattern_not_refused :
    let r : ScanRequest := { path := "/", excludes := ["["] }
    let e : Environment := .ofNothing
    e.disk.resolve e.cwd r.path = .ok [] ∧ r.HasBadPattern ∧ (r.run e).status.code = 0 := by
  intro r e
  have horder : r.InOrder e := ⟨⟨.listing, rfl⟩, nofun, nofun, nofun⟩
  refine ⟨Disk.resolve_slash _ _, ScanRequest.hasBadPattern_of_mem (List.mem_singleton_self _), ?_⟩
  rw [ScanRequest.run_of_findsNothing horder (ScanRequest.findsNothing_of_path rfl rfl rfl)]
  rfl

end DeclTags
