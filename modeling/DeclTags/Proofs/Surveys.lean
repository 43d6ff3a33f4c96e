import DeclTags.Survey
import DeclTags.Proofs.Entries
import DeclTags.Proofs.Registries

set_option autoImplicit false

/-! # Files do not see each other

A survey of many files reports of each what it reports of that file alone. What that is, is said
without the other files (`Survey.IsScanOf`): the path, the language, and the scan of the bytes under
the grammar of the language. The table of grammars with types switched on, which a survey makes once
for all files, holds for every language that a file may have just the grammar that the file would be
given on its own (`Survey.grammarOf_typedGrammars`).
-/

namespace DeclTags

namespace Survey

/-! ## What is said of one file -/

/-- The language of a file is the given one, or else the one of its extension. -/
def LanguageIs (s : Survey) (r : Registry) (path : String) (l : Language) : Prop :=
  match s.language with
  | some name => r.byName? name = some l
  | none => ∃ extension, Path.extension? path = some extension ∧ r.forExtension? extension = some l

/-- The grammar that a file of some language is scanned with. -/
def grammarFor (s : Survey) (l : Language) : Grammar :=
  if s.emitTypes then l.grammar.withTypeSymbols true else l.grammar

/-- What is to be reported of a file. -/
structure IsScanOf (s : Survey) (r : Registry) (d : Disk) (cwd : Location) (path : String)
    (f : FileScan) : Prop where
  path_eq : f.path = Path.relativeTo s.base path
  not_excluded : s.excludes.isMatch f.path = false
  scanned : ∃ l bytes, s.LanguageIs r path l ∧ f.language = l.name ∧
    d.readBytes cwd path = .ok bytes ∧ scanBytes (s.grammarFor l) bytes = .ok f.result

/-- The file is not passed over. -/
structure Covers (s : Survey) (r : Registry) (d : Disk) (cwd : Location) (path : String) :
    Prop where
  not_excluded : s.excludes.isMatch (Path.relativeTo s.base path) = false
  language : ∃ l, s.LanguageIs r path l
  text : ∃ bytes source, d.readBytes cwd path = .ok bytes ∧ Text.decode bytes = .ok source

variable {s : Survey} {r : Registry} {d : Disk} {cwd : Location} {path : String} {f g : FileScan}
  {l k : Language} {forced : Option Language}

theorem LanguageIs.unique (hl : s.LanguageIs r path l) (hk : s.LanguageIs r path k) : l = k := by
  rw [LanguageIs] at hl hk
  cases hlanguage : s.language with
  | some name =>
    rw [hlanguage] at hl hk
    exact Option.some.inj (hl.symm.trans hk)
  | none =>
    rw [hlanguage] at hl hk
    obtain ⟨extension, he, hl⟩ := hl
    obtain ⟨other, ho, hk⟩ := hk
    cases he.symm.trans ho
    exact Option.some.inj (hl.symm.trans hk)

/-- There is one scan of a file at most. -/
theorem IsScanOf.unique (hf : s.IsScanOf r d cwd path f) (hg : s.IsScanOf r d cwd path g) :
    f = g := by
  obtain ⟨l, bytes, hl, hfl, hbytes, hscan⟩ := hf.scanned
  obtain ⟨k, others, hk, hgk, hothers, hscan'⟩ := hg.scanned
  cases hl.unique hk
  cases hbytes.symm.trans hothers
  have hresult : f.result = g.result := Except.ok.inj (hscan.symm.trans hscan')
  have hpath := hf.path_eq.trans hg.path_eq.symm
  have hlanguage := hfl.trans hgk.symm
  cases f
  cases g
  simp_all

/-- A file has a scan if it is not passed over. -/
theorem covers_iff : s.Covers r d cwd path ↔ ∃ f, s.IsScanOf r d cwd path f := by
  constructor
  · rintro ⟨hexcluded, ⟨l, hl⟩, bytes, source, hbytes, hsource⟩
    refine ⟨⟨Path.relativeTo s.base path, l.name, scan (s.grammarFor l) source⟩, rfl, hexcluded,
      l, bytes, hl, rfl, hbytes, ?_⟩
    rw [scanBytes, hsource]
  · rintro ⟨f, hpath, hexcluded, l, bytes, hl, -, hbytes, hscan⟩
    refine ⟨hpath ▸ hexcluded, ⟨l, hl⟩, bytes, ?_⟩
    rw [scanBytes] at hscan
    split at hscan
    · next source hsource => exact ⟨source, hbytes, hsource⟩
    · cases hscan

/-- What is to be reported of a file depends on the disk through the bytes of the file only. -/
theorem IsScanOf.congr {d' : Disk} (h : d'.readBytes cwd path = d.readBytes cwd path)
    (hf : s.IsScanOf r d cwd path f) : s.IsScanOf r d' cwd path f := by
  obtain ⟨l, bytes, hl, hname, hbytes, hscan⟩ := hf.scanned
  exact ⟨hf.path_eq, hf.not_excluded, l, bytes, hl, hname, h.trans hbytes, hscan⟩

/-! ## The table of grammars -/

/-- A table of what names lead to holds just that, for the names that it is made for. -/
theorem lookup_filterMap {α β : Type} (valueOf : String → Option α) (entry : α → β)
    (names : List String) (name : String) :
    (names.filterMap fun n => (valueOf n).map fun a => (n, entry a)).lookup name =
      if name ∈ names then (valueOf name).map entry else none := by
  induction names with
  | nil => rfl
  | cons n names ih =>
      cases hn : valueOf n with
      | none =>
        rw [List.filterMap_cons_none (by rw [hn]; rfl), ih]
        by_cases h : name = n
        · subst h
          simp [hn]
        · simp [h]
      | some a =>
        rw [List.filterMap_cons_some (by rw [hn]; rfl)]
        by_cases h : name = n
        · subst h
          simp [hn]
        · simp [h, ih, List.lookup_cons, beq_false_of_ne h]

/-- The language of all files is registered under the name that is given, if one is. -/
theorem forced_eq_ok_iff :
    s.forced r = .ok forced ↔
      match s.language with
      | some name => ∃ l, r.byName? name = some l ∧ forced = some l
      | none => forced = none := by
  rw [Survey.forced]
  cases s.language with
  | none => simp [eq_comm]
  | some name =>
    simp only [Registry.require]
    cases r.byName? name <;> simp [Except.map, eq_comm]

theorem languageOf?_eq_some_iff (h : s.forced r = .ok forced) :
    languageOf? r forced path = some l ↔ s.LanguageIs r path l := by
  rw [forced_eq_ok_iff] at h
  rw [languageOf?, LanguageIs]
  cases hlanguage : s.language with
  | none =>
    rw [hlanguage] at h
    cases h
    exact Option.bind_eq_some_iff
  | some name =>
    rw [hlanguage] at h
    obtain ⟨k, hk, rfl⟩ := h
    show some k = some l ↔ r.byName? name = some l
    rw [hk]

/-- The language of a file is among those that the table is made for. -/
theorem name_mem_languageNames (h : s.forced r = .ok forced)
    (hl : languageOf? r forced path = some l) :
    l.name ∈ languageNames r forced ∧ r.byName? l.name = some l := by
  rw [forced_eq_ok_iff] at h
  cases hlanguage : s.language with
  | none =>
    rw [hlanguage] at h
    cases h
    obtain ⟨extension, -, hl⟩ := Option.bind_eq_some_iff.mp hl
    have hmem := (Registry.forExtension?_eq_some_iff.mp hl).1
    exact ⟨List.mem_map_of_mem hmem, Registry.byName?_name hmem⟩
  | some name =>
    rw [hlanguage] at h
    obtain ⟨k, hk, rfl⟩ := h
    cases hl
    have hname := Registry.name_eq_of_byName? hk
    exact ⟨List.mem_singleton_self _, hname ▸ hk⟩

/-- **The table has the grammar that a file would be given on its own.** -/
theorem grammarOf_typedGrammars (h : s.forced r = .ok forced)
    (hl : languageOf? r forced path = some l) :
    grammarOf (s.typedGrammars r forced) l = s.grammarFor l := by
  obtain ⟨hmem, hname⟩ := name_mem_languageNames h hl
  rw [grammarOf, typedGrammars, grammarFor]
  by_cases htypes : s.emitTypes = true
  · rw [if_pos htypes, if_pos htypes, lookup_filterMap, if_pos hmem, hname]
    rfl
  · rw [if_neg htypes, if_neg htypes]
    rfl

/-- What a survey finds of a file is what is to be reported of it. -/
theorem scanFile?_eq_some_iff (h : s.forced r = .ok forced) :
    s.scanFile? r d cwd forced (s.typedGrammars r forced) path = some f ↔
      s.IsScanOf r d cwd path f := by
  rw [scanFile?]
  by_cases hexcluded : s.isExcluded (Path.relativeTo s.base path) = true
  · rw [if_pos hexcluded]
    refine iff_of_false (by simp) fun hf => ?_
    have := hf.not_excluded
    rw [hf.path_eq] at this
    exact Bool.false_ne_true (this.symm.trans hexcluded)
  · rw [if_neg hexcluded]
    simp only [Option.bind_eq_bind, Option.pure_def, Option.bind_eq_some_iff,
      toOption_eq_some_iff]
    constructor
    · rintro ⟨l, hl, bytes, hbytes, result, hscan, heq⟩
      rw [grammarOf_typedGrammars h hl] at hscan
      cases heq
      exact ⟨rfl, Bool.eq_false_of_not_eq_true hexcluded, l, bytes,
        (languageOf?_eq_some_iff h).mp hl, rfl, hbytes, hscan⟩
    · rintro ⟨hpath, -, l, bytes, hl, hname, hbytes, hscan⟩
      have hl := (languageOf?_eq_some_iff h).mpr hl
      refine ⟨l, hl, bytes, hbytes, f.result, ?_, ?_⟩
      · rw [grammarOf_typedGrammars h hl, hscan]
      · rw [← hpath, ← hname]

/-! ## All files -/

/-- No two files have the same relative path. -/
def Apart (s : Survey) (files : List String) : Prop :=
  files.Pairwise fun a b =>
    Path.components (Path.relativeTo s.base a) ≠ Path.components (Path.relativeTo s.base b)

/-- Whether a scan is shown under the relative path of a file. -/
def isShownAs (s : Survey) (path : String) (f : FileScan) : Bool :=
  Path.components f.path = Path.components (Path.relativeTo s.base path)

section Found

variable {files : List String} {scanOf : String → Option FileScan}

/-- What is found of files with different paths has different paths. -/
theorem pairwise_found
    (hpath : ∀ path f, scanOf path = some f → f.path = Path.relativeTo s.base path)
    (h : s.Apart files) :
    (files.filterMap scanOf).Pairwise fun f g =>
      Path.components f.path ≠ Path.components g.path := by
  rw [List.pairwise_filterMap]
  refine List.Pairwise.imp (fun {a b} hne f hf g hg => ?_) h
  rwa [hpath a f hf, hpath b g hg]

/-- Nothing that is found of files with other paths is shown under the path of a file. -/
theorem filter_found_eq_nil
    (hpath : ∀ path f, scanOf path = some f → f.path = Path.relativeTo s.base path)
    (h : ∀ file ∈ files, Path.components (Path.relativeTo s.base file) ≠
      Path.components (Path.relativeTo s.base path)) :
    (files.filterMap scanOf).filter (s.isShownAs path) = [] := by
  refine List.filter_eq_nil_iff.mpr fun f hf => ?_
  obtain ⟨file, hfile, hscan⟩ := List.mem_filterMap.mp hf
  have hshown : s.isShownAs path f = false :=
    decide_eq_false (hpath file f hscan ▸ h file hfile)
  exact Bool.eq_false_iff.mp hshown

/-- Under the path of a file is shown what is found of it, and nothing else. -/
theorem filter_found
    (hpath : ∀ path f, scanOf path = some f → f.path = Path.relativeTo s.base path)
    (h : s.Apart files) (hmem : path ∈ files) :
    (files.filterMap scanOf).filter (s.isShownAs path) = (scanOf path).toList := by
  -- what is found before and behind the file has other paths
  obtain ⟨before, behind, rfl⟩ := List.append_of_mem hmem
  obtain ⟨-, hbehind, hbefore⟩ := List.pairwise_append.mp h
  have hnone := filter_found_eq_nil hpath fun file hfile =>
    hbefore file hfile path List.mem_cons_self
  have hnone' := filter_found_eq_nil hpath fun file hfile =>
    ((List.pairwise_cons.mp hbehind).1 file hfile).symm
  have hself : ([path].filterMap scanOf).filter (s.isShownAs path) = (scanOf path).toList := by
    cases hscan : scanOf path with
    | none => simp [hscan]
    | some f =>
      have hshown : s.isShownAs path f = true :=
        decide_eq_true (congrArg Path.components (hpath path f hscan))
      simp [hscan, hshown]
  rw [List.filterMap_append, List.filter_append, hnone, List.nil_append, ← List.singleton_append,
    List.filterMap_append, List.filter_append, hself, hnone', List.append_nil]

end Found

/-- The order of scans by their paths. -/
def pathLe (f g : FileScan) : Bool := Path.le f.path g.path

theorem pathLe_total (f g : FileScan) : pathLe f g || pathLe g f := Path.le_total _ _

theorem pathLe_trans (e f g : FileScan) (hef : pathLe e f = true) (hfg : pathLe f g = true) :
    pathLe e g = true := Path.le_trans _ _ _ hef hfg

/-- Scans with different paths can be put in order in one way only. -/
theorem mergeSort_eq_of_perm {found others : List FileScan}
    (h : found.Pairwise fun f g => Path.components f.path ≠ Path.components g.path)
    (hperm : others.Perm found) : others.mergeSort pathLe = found.mergeSort pathLe := by
  have hnodup : (found.map fun f => Path.components f.path).Nodup := List.pairwise_map.mpr h
  have hsorted : ∀ scans : List FileScan, (scans.mergeSort pathLe).Pairwise fun f g => pathLe f g :=
    List.pairwise_mergeSort pathLe_trans pathLe_total
  refine List.Perm.eq_of_pairwise (fun f g hf hg hfg hgf => ?_) (hsorted others) (hsorted found)
    ((List.mergeSort_perm others _).trans (hperm.trans (List.mergeSort_perm found _).symm))
  -- paths in either order have the same steps, and no two scans have
  have hf := hperm.subset ((List.mergeSort_perm others _).subset hf)
  have hg := (List.mergeSort_perm found _).subset hg
  exact List.inj_on_of_nodup_map hnodup hf hg (Path.componentsLe_antisymm _ _ hfg hgf)

theorem eq_toList_of_perm {found : List FileScan} {one : Option FileScan}
    (h : found.Perm one.toList) : found = one.toList := by
  cases one with
  | none => exact h.eq_nil
  | some f => exact List.perm_singleton.mp h

theorem run_eq (h : s.forced r = .ok forced) (files : List String) :
    s.run r d cwd files = .ok ((files.filterMap
      (s.scanFile? r d cwd forced (s.typedGrammars r forced))).mergeSort pathLe) := by
  rw [run, h]
  rfl

/-- What is found of a file is shown under its relative path. -/
theorem path_of_scanFile? (h : s.forced r = .ok forced) (path : String) (f : FileScan)
    (hf : s.scanFile? r d cwd forced (s.typedGrammars r forced) path = some f) :
    f.path = Path.relativeTo s.base path := ((scanFile?_eq_some_iff h).mp hf).path_eq

/-- The result of a survey holds what is to be reported of its files, and nothing else. -/
theorem mem_run_iff {files : List String} {scans : List FileScan} (h : s.forced r = .ok forced)
    (hrun : s.run r d cwd files = .ok scans) :
    f ∈ scans ↔ ∃ path ∈ files, s.IsScanOf r d cwd path f := by
  rw [run_eq h] at hrun
  cases hrun
  rw [List.mem_mergeSort, List.mem_filterMap]
  exact exists_congr fun path => and_congr_right fun _ => scanFile?_eq_some_iff h

/-- A file is scanned in the same way wherever it has the same bytes. -/
theorem scanFile?_congr {d' : Disk} (h : s.forced r = .ok forced)
    (hbytes : d'.readBytes cwd path = d.readBytes cwd path) :
    s.scanFile? r d' cwd forced (s.typedGrammars r forced) path =
      s.scanFile? r d cwd forced (s.typedGrammars r forced) path := by
  refine Option.ext fun f => ?_
  rw [scanFile?_eq_some_iff h, scanFile?_eq_some_iff h]
  exact ⟨fun hf => hf.congr hbytes.symm, fun hf => hf.congr hbytes⟩

/-- In the sorted result, too, what is shown under the path of a file is what is found of it. -/
theorem filter_sorted (h : s.forced r = .ok forced) (d : Disk) (cwd : Location)
    {files : List String} (hapart : s.Apart files) (hmem : path ∈ files) :
    ((files.filterMap (s.scanFile? r d cwd forced (s.typedGrammars r forced))).mergeSort
        pathLe).filter (s.isShownAs path) =
      (s.scanFile? r d cwd forced (s.typedGrammars r forced) path).toList := by
  refine eq_toList_of_perm (((List.mergeSort_perm _ _).filter _).trans (.of_eq ?_))
  exact filter_found (path_of_scanFile? h) hapart hmem

end Survey

open Survey

/-- **A survey of many files reports of each file what it reports of the file alone.** With a
registered language for all files or none, and files with different relative paths, it gives the
scans of those files that are not passed over, each once and in the order of the paths. Under the
path of a file it shows what a survey of only this file gives. So neither the order of the files nor
what becomes of other files makes a difference. -/
theorem survey_scans_each_alone (s : Survey) (r : Registry) (d : Disk) (cwd : Location)
    (files : List String)
    (hlanguage : ∀ name, s.language = some name → ∃ l, r.byName? name = some l)
    (hapart : s.Apart files) :
    ∃ scans, s.run r d cwd files = .ok scans ∧
      (scans.Pairwise fun f g =>
        Path.le f.path g.path ∧ Path.components f.path ≠ Path.components g.path) ∧
      (∀ f, f ∈ scans ↔ ∃ path ∈ files, s.IsScanOf r d cwd path f) ∧
      (∀ path ∈ files,
        (s.Covers r d cwd path →
          ∃ f, (∀ g, s.IsScanOf r d cwd path g ↔ g = f) ∧
            scans.filter (s.isShownAs path) = [f]) ∧
        (¬s.Covers r d cwd path → scans.filter (s.isShownAs path) = []) ∧
        s.run r d cwd [path] = .ok (scans.filter (s.isShownAs path))) ∧
      (∀ others, others.Perm files → s.run r d cwd others = .ok scans) ∧
      ∀ d' others, s.Apart others →
        ∃ scans', s.run r d' cwd others = .ok scans' ∧
          ∀ path ∈ files, path ∈ others → d'.readBytes cwd path = d.readBytes cwd path →
            scans'.filter (s.isShownAs path) = scans.filter (s.isShownAs path) := by
  obtain ⟨forced, hforced⟩ : ∃ forced, s.forced r = .ok forced := by
    cases hname : s.language with
    | none => exact ⟨none, forced_eq_ok_iff.mpr (by rw [hname])⟩
    | some name =>
      obtain ⟨l, hl⟩ := hlanguage name hname
      exact ⟨some l, forced_eq_ok_iff.mpr (by rw [hname]; exact ⟨l, hl, rfl⟩)⟩
  have hscan : ∀ path f,
      s.scanFile? r d cwd forced (s.typedGrammars r forced) path = some f ↔
        s.IsScanOf r d cwd path f := fun path f => scanFile?_eq_some_iff hforced
  have hfound := pairwise_found (fun path f hf => ((hscan path f).mp hf).path_eq) hapart
  refine ⟨_, run_eq hforced files, ?sorted, fun f => mem_run_iff hforced (run_eq hforced files),
    ?each, ?order, ?others⟩
  case sorted =>
    refine (List.pairwise_mergeSort pathLe_trans pathLe_total _).and ?_
    exact ((List.mergeSort_perm _ _).pairwise_iff fun hne => hne.symm).mpr hfound
  case each =>
    intro path hmem
    rw [filter_sorted hforced d cwd hapart hmem]
    refine ⟨fun hcovers => ?_, fun hnot => ?_, ?_⟩
    · obtain ⟨f, hf⟩ := covers_iff.mp hcovers
      refine ⟨f, fun g => ⟨fun hg => hg.unique hf, fun heq => heq ▸ hf⟩, ?_⟩
      rw [(hscan path f).mpr hf]
      rfl
    · rw [Option.toList_eq_nil_iff, Option.eq_none_iff_forall_not_mem]
      exact fun f hf => hnot (covers_iff.mpr ⟨f, (hscan path f).mp hf⟩)
    · rw [run_eq hforced]
      refine congrArg Except.ok (eq_toList_of_perm ((List.mergeSort_perm _ _).trans (.of_eq ?_)))
      rw [List.filterMap_cons]
      cases s.scanFile? r d cwd forced (s.typedGrammars r forced) path <;> rfl
  case order =>
    intro others hperm
    rw [run_eq hforced, mergeSort_eq_of_perm hfound (hperm.filterMap _)]
  case others =>
    intro d' others hothers
    refine ⟨_, run_eq hforced others, fun path hfiles hmem hbytes => ?_⟩
    rw [filter_sorted hforced d' cwd hothers hmem, filter_sorted hforced d cwd hapart hfiles,
      scanFile?_congr hforced hbytes]

/-- Of two files, the one that is no text is passed over and the other is scanned. -/
theorem survey_scans_each_alone_of_two :
    let s : Survey := { base := "", emitTypes := true }
    let r := ({} : Registry).withBuiltins
    let d : Disk := ⟨[("b.java", .file [0xFF]), ("a.cs", .file [0x7B, 0x7D])]⟩
    ∃ scans f, s.run r d [] ["b.java", "a.cs"] = .ok scans ∧
      scans.filter (s.isShownAs "a.cs") = [f] ∧ s.run r d [] ["a.cs"] = .ok [f] ∧
      scans.filter (s.isShownAs "b.java") = [] := by
  intro s r d
  have hapart : s.Apart ["b.java", "a.cs"] := by
    unfold Survey.Apart
    decide +kernel
  have hread : d.readBytes [] "a.cs" = .ok [0x7B, 0x7D] :=
    Disk.readBytes_of_lookup "a.cs" rfl (by decide +kernel) (by decide +kernel) (by decide)
  have hno : d.readBytes [] "b.java" = .ok [0xFF] :=
    Disk.readBytes_of_lookup "b.java" rfl (by decide +kernel) (by decide +kernel) (by decide)
  have hcovers : s.Covers r d [] "a.cs" := by
    have hlanguage : (r.forExtension? "cs").isSome := by decide +kernel
    obtain ⟨l, hl⟩ := Option.isSome_iff_exists.mp hlanguage
    exact ⟨rfl, ⟨l, "cs", by decide +kernel, hl⟩, _, ['{', '}'], hread,
      toOption_eq_some_iff.mp (by decide +kernel)⟩
  have hnot : ¬s.Covers r d [] "b.java" := by
    rintro ⟨-, -, bytes, source, hbytes, hsource⟩
    cases hno.symm.trans hbytes
    have hnone : (Text.decode [0xFF]).toOption = none := by decide +kernel
    rw [hsource] at hnone
    cases hnone
  obtain ⟨scans, hrun, -, -, heach, -⟩ := survey_scans_each_alone s r d [] ["b.java", "a.cs"]
    (by intro name hname; cases hname) hapart
  obtain ⟨hscanned, -, halone⟩ := heach "a.cs" (by decide)
  obtain ⟨f, -, hf⟩ := hscanned hcovers
  exact ⟨scans, f, hrun, hf, hf ▸ halone, (heach "b.java" (by decide)).2.1 hnot⟩

end DeclTags
