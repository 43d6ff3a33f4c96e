import DeclTags.Discovery
import DeclTags.Proofs.Entries
import DeclTags.Proofs.Surveys
import Mathlib.Data.List.Forall2

set_option autoImplicit false

/-! # What is found and what is scanned

A search finds files whose extension some language claims, and a survey scans files whose extension
some language claims. The two disagree about files without an extension: to a search they have the
empty one, to a survey they have none. Every other file that is found can be read, and is scanned if
it is a text.
-/

namespace DeclTags

/-- What a traversal gives, it gives for some element. -/
theorem exists_of_mem_mapM {ε α β : Type} {f : α → Except ε β} {xs : List α} {ys : List β}
    (h : xs.mapM f = .ok ys) : ∀ y ∈ ys, ∃ x ∈ xs, f x = .ok y := by
  induction xs generalizing ys with
  | nil =>
      cases h
      nofun
  | cons x xs ih =>
      rw [List.mapM_cons] at h
      cases hx : f x with
      | error e => rw [hx] at h; cases h
      | ok z =>
        cases hxs : xs.mapM f with
        | error e => rw [hx, hxs] at h; cases h
        | ok zs =>
          rw [hx, hxs] at h
          cases h
          intro y hy
          rcases List.mem_cons.mp hy with rfl | hy
          · exact ⟨x, List.mem_cons_self, hx⟩
          · obtain ⟨w, hw, hfw⟩ := ih hxs y hy
            exact ⟨w, List.mem_cons_of_mem x hw, hfw⟩

/-- A traversal gives what its function gives, one by one. -/
theorem mapM_eq_ok_iff {ε α β : Type} {f : α → Except ε β} {xs : List α} {ys : List β} :
    xs.mapM f = .ok ys ↔ List.Forall₂ (fun x y => f x = .ok y) xs ys := by
  induction xs generalizing ys with
  | nil =>
      rw [List.forall₂_nil_left_iff, List.mapM_nil]
      exact ⟨fun h => (Except.ok.inj h).symm, fun h => h ▸ rfl⟩
  | cons x xs ih =>
      rw [List.mapM_cons, List.forall₂_cons_left_iff]
      constructor
      · intro h
        cases hx : f x with
        | error e => rw [hx] at h; cases h
        | ok y =>
          cases hxs : xs.mapM f with
          | error e => rw [hx, hxs] at h; cases h
          | ok others =>
            rw [hx, hxs] at h
            cases h
            exact ⟨y, others, rfl, ih.mp hxs, rfl⟩
      · rintro ⟨y, others, hx, hxs, rfl⟩
        rw [hx, ih.mpr hxs]
        rfl

/-- Elements can be found for some others just if one can be found for each of them. -/
theorem exists_forall₂_iff {α β : Type} {R : α → β → Prop} {P : β → Prop} {xs : List α} :
    (∃ ys, List.Forall₂ R xs ys ∧ ∀ y ∈ ys, P y) ↔ ∀ x ∈ xs, ∃ y, R x y ∧ P y := by
  induction xs with
  | nil => exact iff_of_true ⟨[], .nil, nofun⟩ nofun
  | cons x xs ih =>
      rw [List.forall_mem_cons, ← ih]
      constructor
      · rintro ⟨_, hboth, hall⟩
        obtain ⟨y, ys, hx, hxs, rfl⟩ := List.forall₂_cons_left_iff.mp hboth
        obtain ⟨hy, hys⟩ := List.forall_mem_cons.mp hall
        exact ⟨⟨y, hx, hy⟩, ys, hxs, hys⟩
      · rintro ⟨⟨y, hx, hy⟩, ys, hxs, hys⟩
        exact ⟨y :: ys, .cons hx hxs, List.forall_mem_cons.mpr ⟨hy, hys⟩⟩

/-- A traversal gives something just if its function does for every element. -/
theorem exists_mapM_eq_ok_iff {ε α β : Type} {f : α → Except ε β} {xs : List α} :
    (∃ ys, xs.mapM f = .ok ys) ↔ ∀ x ∈ xs, ∃ y, f x = .ok y := by
  have h := @exists_forall₂_iff α β (fun x y => f x = .ok y) (fun _ => True) xs
  simpa [mapM_eq_ok_iff] using h

/-! ## What a search finds -/

section Search

variable {d : Disk} {cwd : Location} {around : List SearchedDirectory} {here : SearchedDirectory}
  {files : List String} {r : Registry} {root path : String}

/-- The path leads to something other than a directory. -/
def Disk.LeadsToFile (d : Disk) (cwd : Location) (path : String) : Prop :=
  ∃ location, d.resolve cwd path = .ok location ∧ d.hasDirectory location = false

theorem Disk.leadsToFile_iff :
    d.LeadsToFile cwd path ↔ ∃ bytes, d.readBytes cwd path = .ok bytes := by
  constructor
  · rintro ⟨location, hlocation, hfile⟩
    exact exists_readBytes hlocation hfile
  · rintro ⟨bytes, hbytes⟩
    rw [readBytes] at hbytes
    cases hlocation : d.resolve cwd path with
    | error fault => rw [hlocation] at hbytes; cases hbytes
    | ok location =>
      refine ⟨location, hlocation, Bool.eq_false_iff.mpr fun hdirectory => ?_⟩
      obtain ⟨entries, hentries⟩ := hasDirectory_iff.mp hdirectory
      simp only [hlocation, bind, Except.bind, hentries] at hbytes
      cases hbytes

theorem leadsToFile_of_filesAt {name : String}
    {search : List SearchedDirectory → SearchedDirectory → Except SearchFault (List String)}
    (hsearch : ∀ around here files, search around here = .ok files →
      ∀ path ∈ files, d.LeadsToFile cwd path)
    (h : filesAt d cwd search around here name = .ok files) :
    ∀ path ∈ files, d.LeadsToFile cwd path := by
  simp only [filesAt] at h
  split at h
  · cases h
  · next location hlocation =>
    split at h
    · next hfile =>
      cases h
      intro path hpath
      cases List.mem_singleton.mp hpath
      exact ⟨location, hlocation, by simpa using hfile⟩
    · split at h
      · cases h
      · split at h
        · cases h
          nofun
        · exact hsearch _ _ files h

/-- **A search finds files only.** -/
theorem leadsToFile_of_filesBelow (depth : Nat)
    (h : filesBelow d cwd depth around here = .ok files) :
    ∀ path ∈ files, d.LeadsToFile cwd path := by
  induction depth generalizing around here files with
  | zero =>
      cases h
      nofun
  | succ depth ih =>
      rw [filesBelow] at h
      cases hfound : (d.children here.location).mapM
          (filesAt d cwd (filesBelow d cwd depth) around here) with
      | error fault => rw [hfound] at h; cases h
      | ok found =>
        rw [hfound] at h
        cases h
        intro path hpath
        obtain ⟨some, hsome, hpath⟩ := List.mem_flatten.mp hpath
        obtain ⟨name, -, hname⟩ := exists_of_mem_mapM hfound some hsome
        exact leadsToFile_of_filesAt (fun _ _ _ hbelow => ih hbelow) hname path hpath

theorem leadsToFile_of_searchedFiles (h : searchedFiles d cwd root = .ok files) :
    ∀ path ∈ files, d.LeadsToFile cwd path := by
  rw [searchedFiles] at h
  split at h
  · cases h
  · next location hlocation =>
    split at h
    · exact leadsToFile_of_filesBelow _ h
    · next hfile =>
      cases h
      intro path hpath
      cases List.mem_singleton.mp hpath
      exact ⟨location, hlocation, Bool.eq_false_of_not_eq_true hfile⟩

/-- A file that is found can be read, and some language claims its extension, the empty one if it
has none. -/
theorem of_mem_discover (h : discover r d cwd root = .ok files) (hpath : path ∈ files) :
    (∃ bytes, d.readBytes cwd path = .ok bytes) ∧
      (r.forExtension? ((Path.extension? path).getD "")).isSome := by
  rw [discover] at h
  cases hsearched : searchedFiles d cwd root with
  | error fault => rw [hsearched] at h; cases h
  | ok paths =>
    rw [hsearched] at h
    cases h
    obtain ⟨hmem, hclaimed⟩ := List.mem_filter.mp ((List.mergeSort_perm _ _).subset hpath)
    obtain ⟨location, hlocation, hfile⟩ := leadsToFile_of_searchedFiles hsearched path hmem
    exact ⟨Disk.exists_readBytes hlocation hfile, hclaimed⟩

end Search

/-- A search of an empty disk finds nothing. -/
theorem discover_of_empty (r : Registry) : discover r {} [] "/" = .ok [] := by
  have hchildren : Disk.children {} [] = [] := by
    simp [Disk.children, Disk.entryIn, Disk.entry?]
  have hsearched : searchedFiles {} [] "/" = .ok [] := by
    rw [searchedFiles, Disk.resolve_slash]
    show filesBelow _ [] 1 [] ⟨[], "/"⟩ = _
    rw [filesBelow, hchildren]
    rfl
  rw [discover, hsearched]
  exact congrArg Except.ok List.mergeSort_nil

/-- A search of a directory with one file finds this file, if a language claims its extension. -/
theorem discover_of_one {r : Registry} {name path : String} {bytes : List UInt8}
    (hpath : Path.join "/" name = path) (hnames : Path.names path = [name])
    (hslash : Path.endsWithSlash path = false) (hname : name ∉ [".", ".."])
    (hclaimed : (r.forExtension? ((Path.extension? path).getD "")).isSome) :
    discover r ⟨[(name, .file bytes)]⟩ [] "/" = .ok [path] := by
  have hlookup : [(name, DiskEntry.file bytes)].lookup name = some (.file bytes) := by simp
  have hfile : filesAt ⟨[(name, .file bytes)]⟩ [] (filesBelow ⟨[(name, .file bytes)]⟩ [] 0) []
      ⟨[], "/"⟩ name = .ok [path] := by
    simp only [filesAt, hpath]
    rw [Disk.resolve_of_lookup name hlookup hnames hslash hname]
    simp [Disk.hasDirectory, Disk.entryIn, Disk.entry?, DiskEntry.isDirectory]
  have hchildren : Disk.children ⟨[(name, .file bytes)]⟩ [] = [name] := by
    simp [Disk.children, Disk.entryIn, Disk.entry?]
  have hsearched : searchedFiles ⟨[(name, .file bytes)]⟩ [] "/" = .ok [path] := by
    rw [searchedFiles, Disk.resolve_slash]
    show filesBelow _ [] 1 [] ⟨[], "/"⟩ = _
    rw [filesBelow, hchildren, List.mapM_cons, hfile]
    rfl
  rw [discover, hsearched]
  simp [bind, Except.bind, pure, Except.pure, hclaimed]

/-! ## What is scanned of it -/

/-- **A file that is found is scanned if it is a text and has an extension**, and not without one.
The files without an extension that are found are those of a language with the empty extension. -/
theorem found_scanned_iff (r : Registry) (d : Disk) (cwd : Location) (root : String)
    (files : List String) (hfound : discover r d cwd root = .ok files) :
    let s : Survey := { base := root }
    ∃ scans, s.run r d cwd files = .ok scans ∧
      ∀ path ∈ files,
        (∃ bytes, d.readBytes cwd path = .ok bytes ∧
          ∀ source, Text.decode bytes = .ok source →
            ((∃ f ∈ scans, s.IsScanOf r d cwd path f) ↔ (Path.extension? path).isSome)) ∧
        (Path.extension? path = none → ∃ l ∈ r.languages, "" ∈ l.profile.extensions) := by
  intro s
  have hforced : s.forced r = .ok none := rfl
  refine ⟨_, Survey.run_eq hforced files, fun path hpath => ?_⟩
  obtain ⟨⟨bytes, hbytes⟩, hclaimed⟩ := of_mem_discover hfound hpath
  refine ⟨⟨bytes, hbytes, fun source hsource => ⟨?scanned, ?extension⟩⟩, fun hnone => ?empty⟩
  case scanned =>
    rintro ⟨f, -, hf⟩
    obtain ⟨l, -, ⟨extension, hextension, -⟩, -⟩ := hf.scanned
    rw [hextension]
    rfl
  case extension =>
    intro hsome
    obtain ⟨extension, hextension⟩ := Option.isSome_iff_exists.mp hsome
    rw [hextension] at hclaimed
    obtain ⟨l, hl⟩ := Option.isSome_iff_exists.mp hclaimed
    have hcovers : s.Covers r d cwd path :=
      ⟨rfl, ⟨l, extension, hextension, hl⟩, bytes, source, hbytes, hsource⟩
    obtain ⟨f, hf⟩ := Survey.covers_iff.mp hcovers
    exact ⟨f, (Survey.mem_run_iff hforced (Survey.run_eq hforced files)).mpr ⟨path, hpath, hf⟩, hf⟩
  case empty =>
    -- the search took the missing extension for the empty one
    rw [hnone] at hclaimed
    obtain ⟨l, hl⟩ := Option.isSome_iff_exists.mp hclaimed
    have hmem := (Registry.forExtension?_eq_some_iff.mp hl).1
    obtain ⟨own, hown, hsame⟩ := Registry.claims_of_forExtension? hl
    have hempty : own = "" := String.toList_eq_nil_iff.mp (List.map_eq_nil_iff.mp hsame)
    exact ⟨l, hmem, hempty ▸ hown⟩

/-- A file with an extension that a language claims is found and scanned. -/
theorem found_scanned_iff_of_one :
    let p : Profile := { name := "x", extensions := ["", "y"] }
    let r := ({} : Registry).insert (.ofProfile p (by decide +kernel))
    let d : Disk := ⟨[("a.y", .file [0x7B, 0x7D])]⟩
    discover r d [] "/" = .ok ["/a.y"] ∧
      ∃ scans f, ({ base := "/" } : Survey).run r d [] ["/a.y"] = .ok scans ∧ f ∈ scans ∧
        ({ base := "/" } : Survey).IsScanOf r d [] "/a.y" f := by
  intro p r d
  have hfound : discover r d [] "/" = .ok ["/a.y"] :=
    discover_of_one (by decide +kernel) (by decide +kernel) (by decide +kernel) (by decide)
      (by decide +kernel)
  have hbytes : d.readBytes [] "/a.y" = .ok [0x7B, 0x7D] :=
    Disk.readBytes_of_lookup "a.y" rfl (by decide +kernel) (by decide +kernel) (by decide)
  have hdecode : Text.decode [0x7B, 0x7D] = .ok ['{', '}'] :=
    toOption_eq_some_iff.mp (by decide +kernel)
  obtain ⟨scans, hrun, heach⟩ := found_scanned_iff r d [] "/" ["/a.y"] hfound
  obtain ⟨⟨bytes, hread, hscanned⟩, -⟩ := heach "/a.y" (List.mem_singleton_self _)
  cases hbytes.symm.trans hread
  obtain ⟨f, hmem, hf⟩ := (hscanned _ hdecode).mpr (by decide +kernel)
  exact ⟨hfound, scans, f, hrun, hmem, hf⟩

/-- **What is found is not always scanned**: with a language for the empty extension, a file without
an extension is found, and is a text, and is passed over. -/
theorem makefile_found_not_scanned :
    let p : Profile := { name := "x", extensions := [""] }
    let r := ({} : Registry).insert (.ofProfile p (by decide +kernel))
    let d : Disk := ⟨[("Makefile", .file [0x7B, 0x7D])]⟩
    discover r d [] "/" = .ok ["/Makefile"] ∧
      d.readBytes [] "/Makefile" = .ok [0x7B, 0x7D] ∧ Text.decode [0x7B, 0x7D] = .ok ['{', '}'] ∧
      ({ base := "/" } : Survey).run r d [] ["/Makefile"] = .ok [] := by
  intro p r d
  have hforced : ({ base := "/" } : Survey).forced r = .ok none := rfl
  have hextension : Path.extension? "/Makefile" = none := by decide +kernel
  have hpassed : Survey.scanFile? { base := "/" } r d [] none
      (Survey.typedGrammars { base := "/" } r none) "/Makefile" = none := by
    refine Option.eq_none_iff_forall_not_mem.mpr fun f hf => ?_
    obtain ⟨l, -, ⟨extension, he, -⟩, -⟩ := ((Survey.scanFile?_eq_some_iff hforced).mp hf).scanned
    rw [hextension] at he
    cases he
  refine ⟨?found, ?bytes, toOption_eq_some_iff.mp (by decide +kernel), ?passed⟩
  case found =>
    exact discover_of_one (by decide +kernel) (by decide +kernel) (by decide +kernel) (by decide)
      (by decide +kernel)
  case bytes =>
    exact Disk.readBytes_of_lookup "Makefile" rfl (by decide +kernel) (by decide +kernel)
      (by decide)
  case passed =>
    rw [Survey.run_eq hforced, List.filterMap_cons_none hpassed]
    exact congrArg Except.ok List.mergeSort_nil

end DeclTags
