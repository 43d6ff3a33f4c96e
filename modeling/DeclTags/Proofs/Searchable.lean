import DeclTags.Discovery
import DeclTags.Proofs.JoinedPaths
import Mathlib.Data.List.Induction
import Mathlib.Data.List.Nodup
import Mathlib.Data.List.Perm.Subperm

set_option autoImplicit false

/-! # Disks that can be searched

A search enters one directory after another, links included. If no link below its root leads nowhere
and no directory is below itself (`Disk.Searchable`), then every entry on the way can be followed
(`Disk.Entered.exists_resolve`), and the directories around the one that is searched are all
different (`Disk.Entered.nodup`). So there are no more of them than the disk has directories
(`Disk.Entered.length_le`). A disk without links is always of this kind, and one whose links lead
deeper than where they stand (`Disk.Searchable.of_no_links`, `Disk.Searchable.of_deeper`).
-/

namespace DeclTags

namespace Disk

variable {d : Disk} {cwd here there location : Location} {root path name : String}
  {names more : List String} {entry : DiskEntry} {entries : List (String × DiskEntry)}

/-! ## The directories of a disk -/

/-- The locations of the directories in an entry, itself included. -/
def directoriesIn : DiskEntry → List Location
  | .directory entries => [] :: inAll entries
  | _ => []
where
  /-- The locations of the directories in the entries of a directory. -/
  inAll : List (String × DiskEntry) → List Location
    | [] => []
    | (name, entry) :: entries => (directoriesIn entry).map (name :: ·) ++ inAll entries

mutual

theorem length_directoriesIn : ∀ entry, (directoriesIn entry).length = directoryCount entry
  | .file _ | .link _ => rfl
  | .directory entries => by
      rw [directoriesIn, directoryCount, List.length_cons, length_inAll entries, Nat.add_comm]

theorem length_inAll : ∀ entries : List (String × DiskEntry),
    (directoriesIn.inAll entries).length = directoryCount.countAll entries
  | [] => rfl
  | (name, entry) :: entries => by
      rw [directoriesIn.inAll, directoryCount.countAll, List.length_append, List.length_map,
        length_directoriesIn entry, length_inAll entries]

end

theorem mem_inAll (hentry : (name, entry) ∈ entries) (h : location ∈ directoriesIn entry) :
    name :: location ∈ directoriesIn.inAll entries := by
  induction entries with
  | nil => cases hentry
  | cons e entries ih =>
      rw [directoriesIn.inAll]
      rcases List.mem_cons.mp hentry with rfl | hentry
      · exact List.mem_append_left _ (List.mem_map_of_mem h)
      · exact List.mem_append_right _ (ih hentry)

theorem mem_directoriesIn (h : entryIn entry location = some (.directory entries)) :
    location ∈ directoriesIn entry := by
  induction location generalizing entry with
  | nil =>
      cases h
      exact List.mem_cons_self
  | cons first location ih =>
      cases entry with
      | directory inside =>
        rw [entryIn] at h
        split at h
        · next inner hinner =>
          obtain ⟨before, behind, hsplit, -⟩ := List.lookup_eq_some_iff.mp hinner
          have hmem : (first, inner) ∈ inside := hsplit ▸ List.mem_append_right _ List.mem_cons_self
          exact List.mem_cons_of_mem _ (mem_inAll hmem (ih h))
        · cases h
      | _ => cases h

/-- There are no more directories than are counted. -/
theorem length_le_directoryCount {locations : List Location} (hnodup : locations.Nodup)
    (h : ∀ location ∈ locations, d.hasDirectory location = true) :
    locations.length ≤ directoryCount (.directory d.root) := by
  rw [← length_directoriesIn]
  refine (List.subperm_of_subset hnodup fun location hlocation => ?_).length_le
  obtain ⟨entries, hentries⟩ := hasDirectory_iff.mp (h location hlocation)
  exact mem_directoriesIn hentries

/-! ## The entries of a directory -/

/-- In every directory there is one entry of a name. -/
def WellNamed (d : Disk) : Prop :=
  ∀ location entries, d.entry? location = some (.directory entries) →
    (entries.map Prod.fst).Nodup ∧ ∀ name ∈ entries.map Prod.fst, Path.IsName name

theorem children_perm (h : d.entry? here = some (.directory entries)) :
    (d.children here).Perm (entries.map Prod.fst) := by
  rw [children, h]
  exact List.mergeSort_perm _ _

theorem nodup_children (hd : d.WellNamed) (hhere : d.hasDirectory here = true) :
    (d.children here).Nodup := by
  obtain ⟨entries, hentries⟩ := hasDirectory_iff.mp hhere
  exact (children_perm hentries).nodup_iff.mpr (hd here entries hentries).1

theorem isName_of_mem_children (hd : d.WellNamed) (hhere : d.hasDirectory here = true)
    (hname : name ∈ d.children here) : Path.IsName name := by
  obtain ⟨entries, hentries⟩ := hasDirectory_iff.mp hhere
  exact (hd here entries hentries).2 name ((children_perm hentries).subset hname)

theorem entryIn_concat (h : entryIn entry here = some (.directory entries)) (name : String) :
    entryIn entry (here ++ [name]) = entries.lookup name := by
  induction here generalizing entry with
  | nil =>
      cases h
      rw [List.nil_append, entryIn]
      cases entries.lookup name <;> rfl
  | cons first here ih =>
      cases entry with
      | directory inside =>
        rw [entryIn] at h
        rw [List.cons_append, entryIn]
        split at h
        · exact ih h
        · cases h
      | _ => cases h

theorem mem_children_iff (hhere : d.hasDirectory here = true) :
    name ∈ d.children here ↔ ∃ entry, d.entry? (here ++ [name]) = some entry := by
  obtain ⟨entries, hentries⟩ := hasDirectory_iff.mp hhere
  rw [(children_perm hentries).mem_iff, entry?, entryIn_concat hentries,
    ← Option.isSome_iff_exists, List.lookup_isSome_iff]
  simp [List.mem_map]

/-! ## Disks that can be searched -/

/-- Below the root some names lead to a directory, in which the next name is that of a link. -/
structure LinkBelow (d : Disk) (cwd : Location) (root : String) (names : List String)
    (here : Location) (name : String) : Prop where
  isName : ∀ n ∈ names ++ [name], Path.IsName n
  leads : d.resolve cwd (Path.below root names) = .ok here
  isLink : d.hasLink (here ++ [name]) = true

/-- A search below the root comes to an end without a fault. -/
structure Searchable (d : Disk) (cwd : Location) (root : String) : Prop where
  exists_start : ∃ start, d.resolve cwd root = .ok start
  /-- No link below the root leads nowhere. -/
  followed : ∀ names here name, d.LinkBelow cwd root names here name →
    ∃ there, d.resolve cwd (Path.below root (names ++ [name])) = .ok there
  /-- No directory below the root is below itself. -/
  acyclic : ∀ names more here, (∀ n ∈ names ++ more, Path.IsName n) →
    d.resolve cwd (Path.below root names) = .ok here →
    d.resolve cwd (Path.below root (names ++ more)) = .ok here →
    d.hasDirectory here = true → more = []

/-- Every link below the root leads deeper than where it stands. -/
def LinksDeeper (d : Disk) (cwd : Location) (root : String) : Prop :=
  ∀ names here name there, d.LinkBelow cwd root names here name →
    d.resolve cwd (Path.below root (names ++ [name])) = .ok there → here.length < there.length

theorem hasLink_iff : d.hasLink location = true ↔
    ∃ target, d.entry? location = some (.link target) := by
  rw [hasLink]
  split
  · next target hlink => exact iff_of_true rfl ⟨target, hlink⟩
  · next hother => exact iff_of_false nofun fun ⟨target, hlink⟩ => hother target hlink

/-- Then every name leads deeper. -/
theorem LinksDeeper.length_le (h : d.LinksDeeper cwd root) (hroot : root.isEmpty = false)
    (hnames : ∀ n ∈ names ++ more, Path.IsName n)
    (hhere : d.resolve cwd (Path.below root names) = .ok here)
    (hthere : d.resolve cwd (Path.below root (names ++ more)) = .ok there) :
    here.length + more.length ≤ there.length := by
  -- the last name leads on from where the names before it lead to
  induction more using List.reverseRecOn generalizing there with
  | nil =>
      rw [List.append_nil] at hthere
      cases hhere.symm.trans hthere
      exact Nat.le_refl _
  | append_singleton more name ih =>
      rw [← List.append_assoc] at hnames hthere
      have hbefore : ∀ n ∈ names ++ more, Path.IsName n := fun n hn =>
        hnames n (List.mem_append_left _ hn)
      have hname : Path.IsName name := hnames name (List.mem_append_right _ List.mem_cons_self)
      have hstep := hthere
      rw [Path.below_concat] at hstep
      obtain ⟨middle, hmiddle, hdirectory, entry, hentry⟩ :=
        exists_of_resolve_join (Path.isEmpty_below hroot hbefore) hname hstep
      have hle := ih hbefore hmiddle
      have hlt : middle.length < there.length := by
        cases entry with
        | link target => exact h _ _ _ _ ⟨hnames, hmiddle, hasLink_iff.mpr ⟨_, hentry⟩⟩ hthere
        | _ =>
          have hdirect := resolve_join_of_entry hname hmiddle hdirectory hentry nofun
          cases hdirect.symm.trans hstep
          simp
      calc here.length + (more ++ [name]).length
          = here.length + more.length + 1 := by rw [List.length_append, Nat.add_assoc]; rfl
        _ ≤ middle.length + 1 := Nat.succ_le_succ hle
        _ ≤ there.length := hlt

/-- A disk can be searched if every link leads somewhere, and deeper. -/
theorem Searchable.of_deeper (hstart : d.resolve cwd root = .ok here)
    (hfollowed : ∀ names here name, d.LinkBelow cwd root names here name →
      ∃ there, d.resolve cwd (Path.below root (names ++ [name])) = .ok there)
    (hdeeper : d.LinksDeeper cwd root) : d.Searchable cwd root := by
  refine ⟨⟨here, hstart⟩, hfollowed, fun names more there hnames hthere hagain _ => ?_⟩
  have hle := hdeeper.length_le (isEmpty_of_resolve hstart) hnames hthere hagain
  exact List.eq_nil_of_length_eq_zero (by omega)

/-- **A disk without links can be searched** from every path that leads somewhere. -/
theorem Searchable.of_no_links (hstart : d.resolve cwd root = .ok here)
    (hlinks : ∀ location, d.hasLink location = false) : d.Searchable cwd root := by
  have hnone : ∀ names here name, ¬d.LinkBelow cwd root names here name := by
    intro names here name h
    cases (hlinks _).symm.trans h.isLink
  exact .of_deeper hstart (fun names here name h => absurd h (hnone names here name))
    fun names here name _ h => absurd h (hnone names here name)

/-! ## Directories that are entered -/

/-- The directories that are entered on the way through some names, innermost first. -/
inductive Entered (d : Disk) (cwd : Location) (root : String) :
    List String → List SearchedDirectory → Prop
  | root {start : Location} (hstart : d.resolve cwd root = .ok start)
      (hdirectory : d.hasDirectory start = true) : Entered d cwd root [] [⟨start, root⟩]
  | step {names : List String} {here : SearchedDirectory} {around : List SearchedDirectory}
      {name : String} {there : Location} (haround : Entered d cwd root names (here :: around))
      (hname : Path.IsName name) (hthere : d.resolve cwd (Path.join here.path name) = .ok there)
      (hdirectory : d.hasDirectory there = true) :
      Entered d cwd root (names ++ [name]) (⟨there, Path.join here.path name⟩ :: here :: around)

namespace Entered

variable {around stack : List SearchedDirectory} {here w : SearchedDirectory}

theorem isName (h : d.Entered cwd root names stack) : ∀ n ∈ names, Path.IsName n := by
  induction h with
  | root => nofun
  | step _ hname _ _ ih => exact Path.isName_concat ih hname

/-- Behind the names stands the innermost directory. -/
theorem innermost (h : d.Entered cwd root names (here :: around)) :
    here.path = Path.below root names ∧ d.resolve cwd here.path = .ok here.location := by
  generalize hstack : here :: around = stack at h
  induction h generalizing here around with
  | root hstart =>
      cases hstack
      exact ⟨rfl, hstart⟩
  | step _ _ hthere _ ih =>
      cases hstack
      exact ⟨by rw [Path.below_concat, (ih rfl).1], hthere⟩

/-- Every directory on the way stands behind the first of the names. -/
theorem exists_before (h : d.Entered cwd root names stack) (hw : w ∈ stack) :
    d.hasDirectory w.location = true ∧ ∃ before, before <+: names ∧
      d.resolve cwd (Path.below root before) = .ok w.location := by
  induction h with
  | root hstart hdirectory =>
      cases List.mem_singleton.mp hw
      exact ⟨hdirectory, [], List.prefix_refl [], hstart⟩
  | @step names here around name there haround hname hthere hdirectory ih =>
      rcases List.mem_cons.mp hw with rfl | hw
      · refine ⟨hdirectory, names ++ [name], List.prefix_refl _, ?_⟩
        rw [Path.below_concat, ← haround.innermost.1]
        exact hthere
      · obtain ⟨hw, before, hbefore, hresolved⟩ := ih hw
        exact ⟨hw, before, hbefore.trans (List.prefix_append names _), hresolved⟩

/-- **No directory is entered that is entered already.** -/
theorem location_ne (h : d.Entered cwd root names (here :: around)) (hs : d.Searchable cwd root)
    (hname : Path.IsName name) (hthere : d.resolve cwd (Path.join here.path name) = .ok there) :
    ∀ w ∈ here :: around, w.location ≠ there := by
  rintro w hw rfl
  obtain ⟨hdirectory, before, ⟨rest, rfl⟩, hresolved⟩ := h.exists_before hw
  -- behind the rest of the names and this one stands the same directory
  have hagain : d.resolve cwd (Path.below root (before ++ (rest ++ [name]))) = .ok w.location := by
    rw [← List.append_assoc, Path.below_concat, ← h.innermost.1]
    exact hthere
  have hnames : ∀ n ∈ before ++ (rest ++ [name]), Path.IsName n := by
    rw [← List.append_assoc]
    exact Path.isName_concat h.isName hname
  have hnil := hs.acyclic before (rest ++ [name]) w.location hnames hresolved hagain hdirectory
  exact absurd hnil (by simp)

theorem nodup (h : d.Entered cwd root names stack) (hs : d.Searchable cwd root) :
    (stack.map SearchedDirectory.location).Nodup := by
  induction h with
  | root => exact List.nodup_singleton _
  | step haround hname hthere _ ih =>
      refine List.nodup_cons.mpr ⟨fun hmem => ?_, ih⟩
      obtain ⟨w, hw, hsame⟩ := List.mem_map.mp hmem
      exact haround.location_ne hs hname hthere w hw hsame

/-- There are enough directories for those that are entered. -/
theorem length_le (h : d.Entered cwd root names stack) (hs : d.Searchable cwd root) :
    stack.length ≤ directoryCount (.directory d.root) := by
  have hdirectories : ∀ location ∈ stack.map SearchedDirectory.location,
      d.hasDirectory location = true := by
    intro location hlocation
    obtain ⟨w, hw, rfl⟩ := List.mem_map.mp hlocation
    exact (h.exists_before hw).1
  calc stack.length
      = (stack.map SearchedDirectory.location).length := (List.length_map _).symm
    _ ≤ directoryCount (.directory d.root) := length_le_directoryCount (h.nodup hs) hdirectories

/-- In a directory that is entered, every entry leads somewhere. -/
theorem exists_resolve (h : d.Entered cwd root names (here :: around)) (hs : d.Searchable cwd root)
    (hd : d.WellNamed) (hname : name ∈ d.children here.location) :
    Path.IsName name ∧ ∃ there, d.resolve cwd (Path.join here.path name) = .ok there := by
  have hhere := (h.exists_before List.mem_cons_self).1
  obtain ⟨hpath, hresolved⟩ := h.innermost
  have hisName := isName_of_mem_children hd hhere hname
  obtain ⟨entry, hentry⟩ := (mem_children_iff hhere).mp hname
  refine ⟨hisName, ?_⟩
  cases entry with
  | link target =>
    have hlink : d.LinkBelow cwd root names here.location name :=
      ⟨Path.isName_concat h.isName hisName, hpath ▸ hresolved, hasLink_iff.mpr ⟨_, hentry⟩⟩
    rw [hpath, ← Path.below_concat]
    exact hs.followed names _ name hlink
  | file bytes => exact ⟨_, resolve_join_of_entry hisName hresolved hhere hentry nofun⟩
  | directory entries => exact ⟨_, resolve_join_of_entry hisName hresolved hhere hentry nofun⟩

end Entered

end Disk

end DeclTags
