import DeclTags.Proofs.Decimals
import DeclTags.Proofs.Rows
import DeclTags.Proofs.Surveys
import DeclTags.Proofs.Words
import DeclTags.Report.Tags
import Mathlib.Data.List.Forall2

set_option autoImplicit false

/-! # Tags files read back

The format of a tags file has no way to write a tab or a line feed inside of a field. It can be read
back all the same, for a name is a word and a path is made of words, which hold neither of them, nor
a point (`Tag.Readable`); only the path of a file may be any text. So the lines of the file, cut at
tabs, give the fields of the symbols that were found unless the path of a file holds one of the two
(`tags_read_back`), and if it does they do not (`tags_not_read_back`).
-/

namespace DeclTags

/-! ## Fields -/

/-- The fields that are to be read from the line of a symbol. -/
def FileScan.tagFields (f : FileScan) (x : Symbol) : List String :=
  [x.name, f.shownPath, toString x.span.line ++ ";\"", Tag.letter x.kind] ++
    if x.path = [] then [] else ["class:" ++ String.intercalate "." x.path]

/-- The path of the symbol whose line has these fields. -/
def Tag.pathOfFields : List String → List String
  | [_, _, _, _, scope] =>
    (Text.splitOn '.' (scope.toList.drop "class:".length)).map String.ofList
  | _ => []

namespace Tag

/-- The path of an enclosing scope is read back from the fields. -/
theorem pathOfFields_tagFields {x : Symbol} (hx : x.InWords) (f : FileScan) :
    pathOfFields (f.tagFields x) = x.path := by
  unfold FileScan.tagFields
  by_cases hnil : x.path = []
  · rw [if_pos hnil, hnil]
    rfl
  · rw [if_neg hnil]
    have hscope : ("class:" ++ String.intercalate "." x.path).toList.drop "class:".length =
        ['.'].intercalate (x.path.map String.toList) := by
      rw [String.toList_append, String.toList_intercalate]
      rfl
    have hpoint : ∀ segment ∈ x.path.map String.toList, '.' ∉ segment := by
      intro cs hcs
      obtain ⟨segment, hsegment, rfl⟩ := List.mem_map.mp hcs
      exact not_mem_of_segment (hx.path segment hsegment) (by decide)
    show (Text.splitOn '.' _).map String.ofList = x.path
    rw [hscope, Text.splitOn_intercalate (by simpa using hnil) hpoint, List.map_map]
    simp [Function.comp_def]

/-! ## Lines -/

/-- The line of a symbol are its fields with tabs between them. -/
theorem text_eq_fields (f : FileScan) (x : Symbol) :
    (text ⟨x.name, f.shownPath, x.span.line, x.kind, x.path⟩).toList =
      ['\t'].intercalate ((f.tagFields x).map String.toList) ++ ['\n'] := by
  unfold text FileScan.tagFields
  cases x.path with
  | nil => simp [List.intercalate_cons_cons]
  | cons segment path => simp [List.intercalate_cons_cons]

/-- The fields of a symbol hold neither tab nor line feed if the path of its file does not. -/
theorem not_mem_tagFields {f : FileScan} {x : Symbol} (hx : x.InWords) {c : Char}
    (hc : c ∈ ['\t', '\n']) (hpath : c ∉ f.path.toList) :
    ∀ field ∈ (f.tagFields x).map String.toList, c ∉ field := by
  have hword : ∀ c ∈ ['\t', '\n'], Lexeme.isWordChar c = false ∧ c.isDigit = false ∧ c ≠ '/' ∧
      c ∉ ";\"".toList ∧ c ∉ (letter x.kind).toList ∧ c ∉ "class:".toList ∧ c ∉ ".".toList := by
    cases x.kind <;> exact List.all_iff_forall_prop.1 (by decide)
  obtain ⟨hletter, hdigit, hslash, hmark, hkind, hclass, hpoint⟩ := hword c hc
  have hscope : c ∉ (String.intercalate "." x.path).toList := by
    rw [String.toList_intercalate]
    refine Text.not_mem_intercalate hpoint fun cs hcs => ?_
    obtain ⟨segment, hsegment, rfl⟩ := List.mem_map.mp hcs
    refine not_mem_of_segment (hx.path segment hsegment) ?_
    rcases List.mem_cons.mp hc with rfl | hc
    · decide
    · rw [List.mem_singleton.mp hc]
      decide
  have hline : c ∉ (toString x.span.line).toList := by
    rw [Decimals.toList_toString]
    intro hmem
    rw [Decimals.isDigit_of_mem _ c hmem] at hdigit
    cases hdigit
  intro field hfield
  obtain ⟨text, htext, rfl⟩ := List.mem_map.mp hfield
  rcases List.mem_append.mp htext with htext | htext
  · simp only [List.mem_cons, List.not_mem_nil, or_false] at htext
    rcases htext with rfl | rfl | rfl | rfl
    · exact hx.name.not_mem hletter
    · exact Text.not_mem_replaceChar hslash hpath
    · rw [String.toList_append, List.mem_append]
      exact not_or.mpr ⟨hline, hmark⟩
    · exact hkind
  · split at htext
    · cases htext
    · rw [List.mem_singleton.mp htext, String.toList_append, List.mem_append]
      exact not_or.mpr ⟨hclass, hscope⟩

/-- The line of a symbol without its end. -/
def row (e : FileScan × Symbol) : List Char :=
  ['\t'].intercalate ((e.1.tagFields e.2).map String.toList)

theorem row_fields {f : FileScan} {x : Symbol} (hx : x.InWords) (hpath : '\t' ∉ f.path.toList) :
    (Text.splitOn '\t' (row (f, x))).map String.ofList = f.tagFields x := by
  have hne : (f.tagFields x).map String.toList ≠ [] := by simp [FileScan.tagFields]
  rw [row, Text.splitOn_intercalate hne (not_mem_tagFields hx (by decide) hpath), List.map_map]
  simp [Function.comp_def]

end Tag

/-! ## Tags files -/

/-- The symbols of some scans, each with its file. -/
def filedSymbols (scans : List FileScan) : List (FileScan × Symbol) :=
  scans.flatMap fun f => f.result.symbols.map fun x => (f, x)

/-- The tag of a symbol in a file. -/
def tagOf (e : FileScan × Symbol) : Tag :=
  ⟨e.2.name, e.1.shownPath, e.2.span.line, e.2.kind, e.2.path⟩

/-- The order of symbols by their tags. -/
def symbolLe (a b : FileScan × Symbol) : Bool := Tag.le (tagOf a) (tagOf b)

/-- The symbols of some scans in the order of their tags. -/
def sortedSymbols (scans : List FileScan) : List (FileScan × Symbol) :=
  (filedSymbols scans).mergeSort symbolLe

theorem sortedTags_eq (scans : List FileScan) :
    sortedTags scans = (sortedSymbols scans).map tagOf := by
  have htags : scans.flatMap FileScan.tags = (filedSymbols scans).map tagOf := by
    rw [filedSymbols, List.map_flatMap]
    refine List.flatMap_congr fun f _ => ?_
    rw [FileScan.tags, List.map_map]
    rfl
  have hsort := List.map_mergeSort (l := filedSymbols scans) (r := symbolLe) (s := Tag.le)
    (f := tagOf) fun _ _ _ _ => rfl
  rw [sortedTags, htags, ← hsort]
  rfl

/-- The tags of a file are those of its symbols in another order. -/
theorem exists_sortedTags (scans : List FileScan) : ∃ entries : List (FileScan × Symbol),
    entries.Perm (filedSymbols scans) ∧
      sortedTags scans = entries.map fun e =>
        ⟨e.2.name, e.1.shownPath, e.2.span.line, e.2.kind, e.2.path⟩ :=
  ⟨sortedSymbols scans, List.mergeSort_perm _ _, sortedTags_eq scans⟩

/-- The text of a tags file are its rows, each ended by a line feed. -/
theorem toList_tagsText {scans : List FileScan} {entries : List (FileScan × Symbol)}
    (h : sortedTags scans = entries.map fun e =>
      ⟨e.2.name, e.1.shownPath, e.2.span.line, e.2.kind, e.2.path⟩) :
    (tagsText scans).toList =
      (tagsHeader.map (·.toList.dropLast) ++ entries.map Tag.row).flatMap (· ++ ['\n']) := by
  have hheader : tagsHeader.flatMap String.toList =
      (tagsHeader.map (·.toList.dropLast)).flatMap (· ++ ['\n']) := by decide +kernel
  rw [tagsText, String.toList_join, List.flatMap_append, List.flatMap_append, hheader, h,
    List.map_map, List.flatMap_map, List.flatMap_map, List.flatMap_map]
  refine congrArg _ (List.flatMap_congr fun e _ => ?_)
  exact Tag.text_eq_fields e.1 e.2

/-- What a survey reports of a file is the scan of a text. -/
theorem Survey.result_of_run {s : Survey} {r : Registry} {d : Disk} {cwd : Location}
    {files : List String} {scans : List FileScan} (hrun : s.run r d cwd files = .ok scans)
    {f : FileScan} (hf : f ∈ scans) : ∃ g source, f.result = scan g source := by
  obtain ⟨forced, hforced⟩ : ∃ forced, s.forced r = .ok forced := by
    cases hforced : s.forced r with
    | error fault =>
        rw [Survey.run, hforced] at hrun
        cases hrun
    | ok forced => exact ⟨forced, rfl⟩
  obtain ⟨path, -, hscan⟩ := (mem_run_iff hforced hrun).mp hf
  obtain ⟨l, bytes, -, -, -, hresult⟩ := hscan.scanned
  rw [scanBytes] at hresult
  split at hresult
  · next source _ => exact ⟨_, source, (Except.ok.inj hresult).symm⟩
  · cases hresult

/-- A survey of one file gives the scan of that file. -/
theorem Survey.run_of_isScanOf {s : Survey} {r : Registry} {d : Disk} {cwd : Location}
    {path : String} {forced : Option Language} {f : FileScan} (hforced : s.forced r = .ok forced)
    (hf : s.IsScanOf r d cwd path f) : s.run r d cwd [path] = .ok [f] := by
  have hscan := (scanFile?_eq_some_iff hforced).mpr hf
  rw [run_eq hforced, List.filterMap_cons_some hscan, List.filterMap_nil, List.mergeSort_singleton]

/-- **Tags files are read back.** Let no file in which symbols were found have a tab or a line feed
in its path. Then there are, behind the lines of the header, as many lines as symbols, one for each
of them. Cut at tabs it gives the name, the shown path of the file, the line of the name, the letter
of the kind and, if there are enclosing declarations, their names, which are read back from it. -/
theorem tags_read_back {s : Survey} {r : Registry} {d : Disk} {cwd : Location}
    {files : List String} {scans : List FileScan} (hrun : s.run r d cwd files = .ok scans)
    (hpaths : ∀ f ∈ scans, f.result.symbols ≠ [] → '\t' ∉ f.path.toList ∧ '\n' ∉ f.path.toList) :
    ∃ (entries : List (FileScan × Symbol)) (lines : List (List Char)),
      entries.Perm (filedSymbols scans) ∧
      Text.splitOn '\n' (tagsText scans).toList =
        tagsHeader.map (·.toList.dropLast) ++ lines ++ [[]] ∧
      List.Forall₂ (fun line e =>
        (Text.splitOn '\t' line).map String.ofList = e.1.tagFields e.2 ∧
          Tag.pathOfFields (e.1.tagFields e.2) = e.2.path) lines entries := by
  obtain ⟨entries, hperm, hsorted⟩ := exists_sortedTags scans
  have hentry : ∀ e ∈ entries,
      e.2.InWords ∧ '\t' ∉ e.1.path.toList ∧ '\n' ∉ e.1.path.toList := by
    intro e he
    obtain ⟨f, hf, hmem⟩ := List.mem_flatMap.mp (hperm.subset he)
    obtain ⟨x, hx, rfl⟩ := List.mem_map.mp hmem
    obtain ⟨g, source, hresult⟩ := Survey.result_of_run hrun hf
    exact ⟨scan_inWords (hresult ▸ hx), hpaths f hf (List.ne_nil_of_mem hx)⟩
  have hheader : ∀ row ∈ tagsHeader.map (·.toList.dropLast), '\n' ∉ row := by decide +kernel
  have hrows : ∀ row ∈ tagsHeader.map (·.toList.dropLast) ++ entries.map Tag.row, '\n' ∉ row := by
    intro row hrow
    rcases List.mem_append.mp hrow with hrow | hrow
    · exact hheader row hrow
    · obtain ⟨e, he, rfl⟩ := List.mem_map.mp hrow
      obtain ⟨hx, -, hpath⟩ := hentry e he
      exact Text.not_mem_intercalate (by decide) (Tag.not_mem_tagFields hx (by decide) hpath)
  refine ⟨entries, entries.map Tag.row, hperm, ?_, ?_⟩
  · have hsplit := Text.splitOn_rows hrows []
    rw [List.append_nil] at hsplit
    rw [toList_tagsText hsorted, hsplit]
    rfl
  · rw [List.forall₂_map_left_iff, List.forall₂_same]
    intro e he
    obtain ⟨hx, hpath, -⟩ := hentry e he
    exact ⟨Tag.row_fields hx hpath, Tag.pathOfFields_tagFields hx e.1⟩

/-- The language Java, with nothing else registered. -/
def javaOnly : Registry := ({} : Registry).insert (.ofProfile .java (by decide +kernel))

/-- A directory with one file. -/
def Disk.ofText (name : String) (source : List Char) : Disk :=
  ⟨[(name, .file (Text.bytesOf source))]⟩

/-- The survey of the only file in a directory, a text of Java. -/
theorem run_of_java {name : String} {source : List Char}
    (hrelative : Path.relativeTo "" name = name)
    (hextension : Path.extension? name = some "java") (hnames : Path.names name = [name])
    (hslash : Path.endsWithSlash name = false) (hname : name ∉ [".", ".."])
    (hdecode : Text.decode (Text.bytesOf source) = .ok source) :
    ({ base := "" } : Survey).run javaOnly (.ofText name source) [] [name] =
      .ok [⟨name, "java", scan (.ofProfile .java) source⟩] := by
  have hread : (Disk.ofText name source).readBytes [] name = .ok (Text.bytesOf source) :=
    Disk.readBytes_of_lookup name (by simp [Disk.ofText]) hnames hslash hname
  have hlanguage : javaOnly.forExtension? "java" =
      some (.ofProfile .java (by decide +kernel)) := by decide +kernel
  have hscan : scanBytes (.ofProfile .java) (Text.bytesOf source) =
      .ok (scan (.ofProfile .java) source) := by rw [scanBytes, hdecode]
  exact Survey.run_of_isScanOf rfl ⟨hrelative.symm, rfl, .ofProfile .java (by decide +kernel), _,
    ⟨"java", hextension, hlanguage⟩, rfl, hread, hscan⟩

/-- The tags file of a class in a class with a method. -/
theorem tags_read_back_of_class :
    let source := "class A \x7b class B \x7b void f() \x7b \x7d \x7d \x7d".toList
    ∃ scans, ({ base := "" } : Survey).run javaOnly (.ofText "a.java" source) [] ["a.java"] =
        .ok scans ∧
      ∃ line ∈ Text.splitOn '\n' (tagsText scans).toList,
        (Text.splitOn '\t' line).map String.ofList = ["f", "a.java", "1;\"", "m", "class:A.B"] ∧
          Tag.pathOfFields ((Text.splitOn '\t' line).map String.ofList) = ["A", "B"] := by
  intro source
  have hrun : ({ base := "" } : Survey).run javaOnly (.ofText "a.java" source) [] ["a.java"] =
      .ok [⟨"a.java", "java", scan (.ofProfile .java) source⟩] :=
    run_of_java (by decide +kernel) (by decide +kernel) (by decide +kernel) (by decide +kernel)
      (by decide) (toOption_eq_some_iff.mp (by decide +kernel))
  obtain ⟨entries, lines, hperm, hsplit, hlines⟩ := tags_read_back hrun (by decide +kernel)
  have hone : filedSymbols [⟨"a.java", "java", scan (.ofProfile .java) source⟩] =
      [(⟨"a.java", "java", scan (.ofProfile .java) source⟩, {
        name := "f", kind := .method, modifiers := [], parameterText := "", startLine := 1,
        span := ⟨25, 26, 1, 26⟩, path := ["A", "B"] })] := by decide +kernel
  rw [hone, List.perm_singleton] at hperm
  subst hperm
  obtain ⟨line, rest, ⟨hfields, hpath⟩, hrest, rfl⟩ := List.forall₂_cons_right_iff.mp hlines
  refine ⟨_, hrun, line, ?_, hfields.trans (by decide +kernel), ?_⟩
  · rw [hsplit]
    simp
  · rw [hfields, hpath]

/-- **A path can break the lines of a tags file**: there is no line with the fields of a method in a
file with a tab, a line feed or a backslash in its name. -/
theorem tags_not_read_back :
    let source := "class A \x7b void f() \x7b \x7d \x7d".toList
    ∀ name ∈ ["a\tb.java", "a\nb.java", "a\\b.java"], ∃ scans f x,
      ({ base := "" } : Survey).run javaOnly (.ofText name source) [] [name] = .ok scans ∧
      (f, x) ∈ filedSymbols scans ∧ f.path = name ∧
      ∀ line ∈ Text.splitOn '\n' (tagsText scans).toList,
        (Text.splitOn '\t' line).map String.ofList ≠
          [x.name, f.path, toString x.span.line ++ ";\"", Tag.letter x.kind,
            "class:" ++ String.intercalate "." x.path] := by
  intro source name hname
  let x : Symbol := {
    name := "f", kind := .method, modifiers := [], parameterText := "", startLine := 1,
    span := ⟨15, 16, 1, 16⟩, path := ["A"] }
  let f : FileScan := ⟨name, "java", scan (.ofProfile .java) source⟩
  have hsymbols : f.result.symbols = [x] := by
    show (scan (.ofProfile .java) source).symbols = [x]
    decide +kernel
  have hsorted : sortedTags [f] = [(f, x)].map fun e =>
      ⟨e.2.name, e.1.shownPath, e.2.span.line, e.2.kind, e.2.path⟩ := by
    rw [sortedTags, List.flatMap_singleton, FileScan.tags, hsymbols, List.map_singleton,
      List.mergeSort_singleton, List.map_singleton]
  refine ⟨[f], f, x, ?_, by simp [filedSymbols, hsymbols], rfl, ?_⟩
  · simp only [List.mem_cons, List.not_mem_nil, or_false] at hname
    rcases hname with rfl | rfl | rfl <;>
    exact run_of_java (by decide +kernel) (by decide +kernel) (by decide +kernel)
      (by decide +kernel) (by decide) (toOption_eq_some_iff.mp (by decide +kernel))
  · -- the fields are compared as lists of characters
    intro line hline hfields
    rw [toList_tagsText hsorted] at hline
    have hchars := congrArg (List.map String.toList) hfields
    rw [List.map_map, String.toList_comp_ofList, List.map_id] at hchars
    have key : ∀ name ∈ ["a\tb.java", "a\nb.java", "a\\b.java"],
        ∀ line ∈ Text.splitOn '\n' ((tagsHeader.map (·.toList.dropLast) ++
          [Tag.row (⟨name, "java", {}⟩, x)]).flatMap (· ++ ['\n'])),
        Text.splitOn '\t' line ≠ [x.name, name, toString x.span.line ++ ";\"", Tag.letter x.kind,
          "class:" ++ String.intercalate "." x.path].map String.toList := by decide +kernel
    exact key name hname line hline hchars

end DeclTags
