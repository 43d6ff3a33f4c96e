import DeclTags.Proofs.Discoveries
import DeclTags.Proofs.Searchable
import Mathlib.Data.List.Nodup

set_option autoImplicit false

/-! # All files are found

On a disk that can be searched, a search does not run out of depth, and no link looks like a loop to
it. So of every entry of a directory it finds the files behind it, unless it passes it over
(`givesBelow_filesAt`), and of every directory the files below it (`givesBelow_filesBelow`). What a
search finds is said of paths alone (`discover_exact`): the paths below the root that lead to a
file, through no directory that is passed over, and whose extension some language claims.
-/

namespace DeclTags

namespace Disk

variable {d : Disk} {cwd here : Location} {path name : String} {names more : List String}

/-! ## The files below a path -/

/-- Below a path some names lead to a file, through no directory that is passed over. -/
structure Finds (d : Disk) (cwd : Location) (path : String) (names : List String) : Prop where
  isName : ∀ name ∈ names, Path.IsName name
  leadsToFile : d.LeadsToFile cwd (Path.below path names)
  kept : ∀ name ∈ names.dropLast, isSkipped name = false

theorem finds_cons_iff : d.Finds cwd path (name :: names) ↔
    Path.IsName name ∧ (names ≠ [] → isSkipped name = false) ∧
      d.Finds cwd (Path.join path name) names := by
  constructor
  · rintro ⟨hnames, hfile, hkept⟩
    obtain ⟨hname, hnames⟩ := List.forall_mem_cons.mp hnames
    refine ⟨hname, fun hne => ?_, hnames, hfile, fun n hn => hkept n ?_⟩
    · rw [List.dropLast_cons_of_ne_nil hne] at hkept
      exact hkept name List.mem_cons_self
    · rw [List.dropLast_cons_of_ne_nil (fun hnil => by rw [hnil] at hn; cases hn)]
      exact List.mem_cons_of_mem name hn
  · rintro ⟨hname, hskipped, hnames, hfile, hkept⟩
    refine ⟨List.forall_mem_cons.mpr ⟨hname, hnames⟩, hfile, fun n hn => ?_⟩
    cases names with
    | nil => cases hn
    | cons second names =>
      rcases List.mem_cons.mp hn with rfl | hn
      · exact hskipped (List.cons_ne_nil _ _)
      · exact hkept n hn

/-- A path with a file below it, and not at it, leads to a directory with the first name. -/
theorem Finds.exists_directory (h : d.Finds cwd path (name :: more))
    (hpath : path.isEmpty = false) :
    ∃ here, d.resolve cwd path = .ok here ∧ d.hasDirectory here = true ∧
      name ∈ d.children here := by
  obtain ⟨hname, -, hmore⟩ := finds_cons_iff.mp h
  obtain ⟨location, hlocation, -⟩ := hmore.leadsToFile
  obtain ⟨there, hthere⟩ :=
    exists_of_resolve_below (Path.isEmpty_join hpath hname) hmore.isName hlocation
  obtain ⟨here, hhere, hdirectory, hentry⟩ := exists_of_resolve_join hpath hname hthere
  exact ⟨here, hhere, hdirectory, (mem_children_iff hdirectory).mpr hentry⟩

/-- The file that a path leads to is the only one below it. -/
theorem finds_iff_of_file (hhere : d.resolve cwd path = .ok here)
    (hfile : d.hasDirectory here = false) : d.Finds cwd path names ↔ names = [] := by
  constructor
  · intro h
    cases names with
    | nil => rfl
    | cons name more =>
      obtain ⟨there, hthere, hdirectory, -⟩ := h.exists_directory (isEmpty_of_resolve hhere)
      cases hhere.symm.trans hthere
      cases hfile.symm.trans hdirectory
  · rintro rfl
    exact ⟨nofun, ⟨here, hhere, hfile⟩, nofun⟩

/-- A directory is no file, and the files below it are behind its entries. -/
theorem finds_iff_of_directory (hhere : d.resolve cwd path = .ok here)
    (hdirectory : d.hasDirectory here = true) : d.Finds cwd path names ↔
      ∃ name ∈ d.children here, ∃ more, names = name :: more ∧ d.Finds cwd path (name :: more) := by
  constructor
  · intro h
    cases names with
    | nil =>
      obtain ⟨there, hthere, hfile⟩ := h.leadsToFile
      cases hhere.symm.trans hthere
      cases hdirectory.symm.trans hfile
    | cons name more =>
      obtain ⟨there, hthere, -, hname⟩ := h.exists_directory (isEmpty_of_resolve hhere)
      cases hhere.symm.trans hthere
      exact ⟨name, hname, more, rfl, h⟩
  · rintro ⟨name, -, more, rfl, h⟩
    exact h

end Disk

/-! ## The search -/

/-- The result are the paths below `path` of all names that `P` holds of, each once. -/
def GivesBelow (path : String) (P : List String → Prop)
    (result : Except SearchFault (List String)) : Prop :=
  ∃ found : List (List String), result = .ok (found.map (Path.below path)) ∧ found.Nodup ∧
    ∀ names, names ∈ found ↔ P names

section Search

variable {d : Disk} {cwd there : Location} {root name : String} {names : List String}
  {around : List SearchedDirectory} {here : SearchedDirectory}
  {search : List SearchedDirectory → SearchedDirectory → Except SearchFault (List String)}

/-- A link that leads to no directory on the way is taken for what it leads to. -/
theorem filesAt_eq (hthere : d.resolve cwd (Path.join here.path name) = .ok there)
    (hne : ∀ w ∈ here :: around, w.location ≠ there) :
    filesAt d cwd search around here name =
      if d.hasDirectory there then
        if isSkipped name then .ok []
        else search (here :: around) ⟨there, Path.join here.path name⟩
      else .ok [Path.join here.path name] := by
  have hnone : (here :: around).find? (·.location = there) = none :=
    List.find?_eq_none.mpr fun w hw => by simpa using hne w hw
  simp only [filesAt, hthere, hnone, ite_self]
  cases d.hasDirectory there <;> rfl

/-- An entry brings the files behind its name, if a search of a directory finds those below it. -/
theorem givesBelow_filesAt (he : d.Entered cwd root names (here :: around))
    (hs : d.Searchable cwd root) (hd : d.WellNamed) (hname : name ∈ d.children here.location)
    (hsearch : ∀ there, d.Entered cwd root (names ++ [name])
        (⟨there, Path.join here.path name⟩ :: here :: around) →
      GivesBelow (Path.join here.path name) (d.Finds cwd (Path.join here.path name))
        (search (here :: around) ⟨there, Path.join here.path name⟩)) :
    GivesBelow (Path.join here.path name) (fun more => d.Finds cwd here.path (name :: more))
      (filesAt d cwd search around here name) := by
  obtain ⟨hisName, there, hthere⟩ := he.exists_resolve hs hd hname
  rw [filesAt_eq hthere (he.location_ne hs hisName hthere)]
  simp only [Disk.finds_cons_iff, hisName, true_and]
  cases hdirectory : d.hasDirectory there with
  | false =>
    refine ⟨[[]], rfl, List.nodup_singleton _, fun more => ?_⟩
    show more ∈ [[]] ↔ _ ∧ d.Finds cwd (Path.join here.path name) more
    rw [List.mem_singleton, Disk.finds_iff_of_file hthere hdirectory]
    exact ⟨fun hnil => ⟨fun hne => absurd hnil hne, hnil⟩, fun h => h.2⟩
  | true =>
    -- no file is found at the directory itself, so its name is always on the way
    have hbehind : ∀ more, d.Finds cwd (Path.join here.path name) more → more ≠ [] := by
      intro more hmore
      obtain ⟨first, -, rest, rfl, -⟩ := (Disk.finds_iff_of_directory hthere hdirectory).mp hmore
      exact List.cons_ne_nil first rest
    cases hskipped : isSkipped name with
    | true =>
      refine ⟨[], rfl, List.nodup_nil, fun more => iff_of_false List.not_mem_nil ?_⟩
      rintro ⟨hkept, hmore⟩
      cases hkept (hbehind more hmore)
    | false =>
      obtain ⟨found, hfound, hnodup, hmem⟩ := hsearch there (.step he hisName hthere hdirectory)
      refine ⟨found, hfound, hnodup, fun more => ?_⟩
      rw [hmem]
      exact ⟨fun h => ⟨fun _ => rfl, h⟩, fun h => h.2⟩

/-- **A search of a directory finds all files below it**, with as much depth as there are
directories that are not entered yet. -/
theorem givesBelow_filesBelow (hs : d.Searchable cwd root) (hd : d.WellNamed) {depth : Nat}
    (he : d.Entered cwd root names (here :: around))
    (hdepth : Disk.directoryCount (.directory d.root) ≤ around.length + depth) :
    GivesBelow here.path (d.Finds cwd here.path) (filesBelow d cwd depth around here) := by
  induction depth generalizing names around here with
  | zero =>
      have hlength := he.length_le hs
      rw [List.length_cons] at hlength
      omega
  | succ depth ih =>
      have heach : ∀ name ∈ d.children here.location, ∃ found : List (List String),
          filesAt d cwd (filesBelow d cwd depth) around here name =
            .ok (found.map (Path.below (Path.join here.path name))) ∧ found.Nodup ∧
          ∀ more, more ∈ found ↔ d.Finds cwd here.path (name :: more) := by
        intro name hname
        refine givesBelow_filesAt he hs hd hname fun there hthere => ih hthere ?_
        rw [List.length_cons]
        omega
      choose! found hfound hnodup hmem using heach
      have hfiles : filesBelow d cwd (depth + 1) around here =
          .ok (((d.children here.location).flatMap fun name =>
            (found name).map (name :: ·)).map (Path.below here.path)) := by
        have hall : (d.children here.location).mapM
            (filesAt d cwd (filesBelow d cwd depth) around here) =
            .ok ((d.children here.location).map fun name =>
              (found name).map (Path.below (Path.join here.path name))) := by
          rw [mapM_eq_ok_iff, List.forall₂_map_right_iff, List.forall₂_same]
          exact hfound
        rw [filesBelow, hall, List.map_flatMap]
        simp only [List.map_map]
        rfl
      obtain ⟨hdirectory, -⟩ := he.exists_before List.mem_cons_self
      refine ⟨_, hfiles, ?nodup, fun more => ?mem⟩
      case nodup =>
        refine List.nodup_flatMap.mpr ⟨fun name hname => ?_, ?_⟩
        · exact (hnodup name hname).map fun _ _ => List.tail_eq_of_cons_eq
        · -- what is behind different names is different
          refine (Disk.nodup_children hd hdirectory).imp fun hne => ?_
          rintro names hone hother
          obtain ⟨more, -, rfl⟩ := List.mem_map.mp hone
          obtain ⟨more', -, heq⟩ := List.mem_map.mp hother
          exact hne (List.head_eq_of_cons_eq heq).symm
      case mem =>
        rw [Disk.finds_iff_of_directory he.innermost.2 hdirectory, List.mem_flatMap]
        refine exists_congr fun name => and_congr_right fun hname => ?_
        rw [List.mem_map]
        refine exists_congr fun rest => ?_
        rw [hmem name hname, and_comm, eq_comm]

/-- A search finds all files below its root, or the root itself. -/
theorem givesBelow_searchedFiles (hs : d.Searchable cwd root) (hd : d.WellNamed) :
    GivesBelow root (d.Finds cwd root) (searchedFiles d cwd root) := by
  obtain ⟨start, hstart⟩ := hs.exists_start
  rw [searchedFiles, hstart]
  cases hdirectory : d.hasDirectory start with
  | true =>
    have hall := givesBelow_filesBelow hs hd (.root hstart hdirectory) (Nat.le_add_left _ _)
    simpa [hdirectory] using hall
  | false =>
    refine ⟨[[]], by simp [hdirectory, Path.below], List.nodup_singleton _, fun names => ?_⟩
    rw [List.mem_singleton, Disk.finds_iff_of_file hstart hdirectory]

end Search

/-! ## What is found -/

theorem isSkipped_eq_false_iff (name : String) : isSkipped name = false ↔
    name.toList.head? ≠ some '.' ∧ name ∉ ["target", "vendor", "node_modules", "build"] := by
  rw [isSkipped, Bool.or_eq_false_iff, decide_eq_false_iff_not, List.contains_eq_mem,
    decide_eq_false_iff_not, skippedDirectories]

/-- **What is found are just the files below the root that can be scanned.** On a disk with proper
names, if no link below the root leads nowhere and no directory is below itself, a search gives a
result: in order and without a path twice, the paths that lead from the root to a file, links being
followed, through no directory but the root whose name begins with a point or is one of those that
are passed over, and whose extension some language claims, the empty one if they have none. -/
theorem discover_exact (r : Registry) {d : Disk} {cwd : Location} {root : String}
    (hd : d.WellNamed) (hs : d.Searchable cwd root) :
    ∃ files, discover r d cwd root = .ok files ∧
      (files.Pairwise fun a b => Path.le a b ∧ Path.components a ≠ Path.components b) ∧
      ∀ path, path ∈ files ↔ ∃ names : List String,
        (∀ name ∈ names, Path.IsName name) ∧ path = Path.below root names ∧
        (∃ bytes, d.readBytes cwd path = .ok bytes) ∧
        (∀ name ∈ names.dropLast,
          name.toList.head? ≠ some '.' ∧ name ∉ ["target", "vendor", "node_modules", "build"]) ∧
        ∃ l ∈ r.languages, l.profile.Claims ((Path.extension? path).getD "") := by
  obtain ⟨found, hfound, hnodup, hmem⟩ := givesBelow_searchedFiles hs hd
  obtain ⟨start, hstart⟩ := hs.exists_start
  have hroot := Disk.isEmpty_of_resolve hstart
  refine ⟨_, by rw [discover, hfound]; rfl, ?sorted, fun path => ?mem⟩
  case sorted =>
    have hdistinct : ((found.map (Path.below root)).map Path.components).Nodup := by
      rw [List.map_map]
      exact hnodup.map_on fun ns hns ms hms => Path.below_inj hroot
        ((hmem ns).mp hns).isName ((hmem ms).mp hms).isName
    refine (List.pairwise_mergeSort Path.le_trans Path.le_total _).and ?_
    refine ((List.mergeSort_perm _ _).pairwise_iff Ne.symm).mpr ?_
    exact (List.pairwise_map.mp hdistinct).filter _
  case mem =>
    rw [(List.mergeSort_perm _ _).mem_iff, List.mem_filter, List.mem_map,
      Registry.isSome_forExtension?_iff]
    constructor
    · rintro ⟨⟨names, hnames, rfl⟩, hclaimed⟩
      obtain ⟨hisName, hfile, hkept⟩ := (hmem names).mp hnames
      exact ⟨names, hisName, rfl, Disk.leadsToFile_iff.mp hfile,
        fun name hname => (isSkipped_eq_false_iff name).mp (hkept name hname), hclaimed⟩
    · rintro ⟨names, hisName, rfl, hfile, hkept, hclaimed⟩
      exact ⟨⟨names, (hmem names).mpr ⟨hisName, Disk.leadsToFile_iff.mpr hfile,
        fun name hname => (isSkipped_eq_false_iff name).mpr (hkept name hname)⟩, rfl⟩, hclaimed⟩

/-- A directory with a file, one for builds, and a link to the first. -/
def linkedDisk : Disk :=
  ⟨[("a", .directory [("b.y", .file [])]), ("build", .directory [("c.y", .file [])]),
    ("l", .link "a")]⟩

namespace linkedDisk

theorem directory_cases {location : Location} {entries : List (String × DiskEntry)}
    (h : linkedDisk.entry? location = some (.directory entries)) :
    location = [] ∧ entries = linkedDisk.root ∨ location = ["a"] ∧ entries = [("b.y", .file [])] ∨
      location = ["build"] ∧ entries = [("c.y", .file [])] := by
  have hmem : location ∈ [[], ["a"], ["build"]] := Disk.mem_directoriesIn h
  simp only [List.mem_cons, List.not_mem_nil, or_false] at hmem
  rcases hmem with rfl | rfl | rfl <;> cases h <;> simp

theorem wellNamed : linkedDisk.WellNamed := by
  intro location entries h
  rcases directory_cases h with ⟨-, rfl⟩ | ⟨-, rfl⟩ | ⟨-, rfl⟩ <;> decide

/-- There is one link. -/
theorem eq_of_link {here : Location} {name target : String}
    (h : linkedDisk.entry? (here ++ [name]) = some (.link target)) :
    here = [] ∧ name = "l" := by
  obtain ⟨entries, hentries⟩ := Disk.exists_of_entryIn_concat (h ▸ Option.some_ne_none _)
  rw [Disk.entry?, Disk.entryIn_concat hentries] at h
  obtain ⟨before, behind, hsplit, -⟩ := List.lookup_eq_some_iff.mp h
  have hmem : (name, DiskEntry.link target) ∈ entries := by simp [hsplit]
  clear h hsplit
  rcases directory_cases hentries with ⟨rfl, rfl⟩ | ⟨-, rfl⟩ | ⟨-, rfl⟩
  · refine ⟨rfl, ?_⟩
    simp [linkedDisk] at hmem
    exact hmem.1
  · simp at hmem
  · simp at hmem

/-- If it is followed, the link leads to the directory. -/
theorem resolveFrom_link (left : Nat) : linkedDisk.resolveFrom false left [] ["l"] =
    if left = 0 then .error .tooManyLinks else .ok ["a"] := by
  have hnames : Path.names "a" = ["a"] := by decide +kernel
  have hentry : linkedDisk.entry? ([] ++ ["l"]) = some (.link "a") := rfl
  rw [Disk.resolveFrom, if_neg (by decide), if_neg (by decide), if_neg (by decide), hentry]
  cases left with
  | zero => rfl
  | succ left =>
      have hdirectory : linkedDisk.entry? ([] ++ ["a"]) = some (.directory [("b.y", .file [])]) := rfl
      simp only [hnames]
      refine Disk.resolveFrom_name (by decide) rfl hdirectory fun target heq => ?_
      cases heq

theorem resolve_link : linkedDisk.resolve [] (Path.join "/" "l") = .ok ["a"] := by
  have hnames : Path.names "/" = [] := by decide +kernel
  rw [Disk.resolve_join (by decide) (by decide), hnames]
  exact resolveFrom_link Disk.linkLimit

theorem linksDeeper : linkedDisk.LinksDeeper [] "/" := by
  intro names here name there h hthere
  obtain ⟨target, hlink⟩ := Disk.hasLink_iff.mp h.isLink
  obtain ⟨rfl, rfl⟩ := eq_of_link hlink
  have hname : Path.IsName "l" := by decide
  obtain ⟨left, hleft⟩ := Disk.resolve_join_of_resolve hname h.leads
  rw [Path.below_concat, hleft, resolveFrom_link] at hthere
  split at hthere
  · cases hthere
  · cases hthere
    decide

theorem searchable : linkedDisk.Searchable [] "/" := by
  have hstart : linkedDisk.resolve [] (Path.below "/" []) = .ok [] := Disk.resolve_slash _ _
  refine .of_deeper hstart (fun names here name h => ?_) linksDeeper
  obtain ⟨target, hlink⟩ := Disk.hasLink_iff.mp h.isLink
  obtain ⟨rfl, rfl⟩ := eq_of_link hlink
  -- the names before the link lead to the root, so there are none
  have hbefore : ∀ n ∈ [] ++ names, Path.IsName n := fun n hn =>
    h.isName n (List.mem_append_left _ hn)
  have hle := linksDeeper.length_le (by decide) hbefore hstart h.leads
  obtain rfl : names = [] := List.eq_nil_of_length_eq_zero (by simpa using hle)
  exact ⟨_, resolve_link⟩

end linkedDisk

/-- What is in a directory is found once more behind a link to it, and what is in a directory for
builds is not. -/
theorem discover_exact_of_link :
    let p : Profile := { name := "x", extensions := ["y"] }
    let r := ({} : Registry).insert (.ofProfile p (by decide +kernel))
    linkedDisk.WellNamed ∧ linkedDisk.Searchable [] "/" ∧
      ∃ files, discover r linkedDisk [] "/" = .ok files ∧ "/l/b.y" ∈ files ∧
        "/build/c.y" ∉ files := by
  intro p r
  obtain ⟨files, hfiles, -, hmem⟩ := discover_exact r linkedDisk.wellNamed linkedDisk.searchable
  refine ⟨linkedDisk.wellNamed, linkedDisk.searchable, files, hfiles, ?found, ?skipped⟩
  case found =>
    have hpath : linkedDisk.resolve [] (Path.join (Path.join "/" "l") "b.y") =
        .ok (["a"] ++ ["b.y"]) :=
      Disk.resolve_join_of_entry (by decide) linkedDisk.resolve_link rfl rfl nofun
    rw [show "/l/b.y" = Path.below "/" ["l", "b.y"] by decide +kernel]
    refine (hmem _).mpr ⟨["l", "b.y"], by decide, rfl, ⟨[], ?_⟩, by decide, ?_⟩
    · exact Disk.readBytes_of_entry? hpath rfl
    · refine Registry.isSome_forExtension?_iff.mp ?_
      decide +kernel
  case skipped =>
    rw [hmem]
    rintro ⟨names, hnames, hpath, -, hkept, -⟩
    have hroot : "/".isEmpty = false := by decide
    have hsteps : Path.components (Path.below "/" names) =
        Path.components (Path.below "/" ["build", "c.y"]) := by
      rw [← hpath]
      decide +kernel
    rw [Path.below_inj hroot hnames (by decide) hsteps] at hkept
    exact absurd (hkept "build" (by decide)).2 (by decide)

end DeclTags
