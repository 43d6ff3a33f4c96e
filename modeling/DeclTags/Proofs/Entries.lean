import DeclTags.Disk

set_option autoImplicit false

/-! # Where paths lead

A path that is resolved leads to an entry which is no link (`Disk.stands_of_resolve`): every link on
the way is followed, and what is entered on the way is a directory. So a path that does not lead to
a directory leads to a file that can be read.
-/

namespace DeclTags

/-- Only separators stand in a text without pieces between them. -/
theorem Text.eq_of_splitOn {separator : Char} {cs : List Char}
    (h : ∀ piece ∈ splitOn separator cs, piece = []) : ∀ c ∈ cs, c = separator := by
  induction cs with
  | nil => nofun
  | cons c cs ih =>
      rw [splitOn] at h
      split at h
      · next heq =>
        intro d hd
        rcases List.mem_cons.mp hd with rfl | hd
        · exact heq
        · exact ih (fun piece hpiece => h piece (List.mem_cons_of_mem _ hpiece)) d hd
      · split at h
        · exact absurd (h _ (List.mem_singleton_self _)) (List.cons_ne_nil c [])
        · exact absurd (h _ List.mem_cons_self) (List.cons_ne_nil c _)

/-- A path without names is made of slashes. -/
theorem Path.endsWithSlash_of_names_eq_nil {path : String} (h : names path = [])
    (hne : path.toList ≠ []) : endsWithSlash path = true := by
  have hpieces : ∀ piece ∈ Text.splitOn '/' path.toList, piece = [] := by
    intro piece hpiece
    have hempty := List.filter_eq_nil_iff.mp (List.map_eq_nil_iff.mp h) piece hpiece
    simpa using hempty
  refine decide_eq_true ?_
  rw [List.getLast?_eq_some_getLast hne]
  exact congrArg some (Text.eq_of_splitOn hpieces _ (List.getLast_mem hne))

theorem Path.isEmpty_eq_false_of_names {path : String} (h : names path ≠ []) :
    path.isEmpty = false := by
  refine Bool.eq_false_iff.mpr fun hempty => h ?_
  rw [String.isEmpty_iff.mp hempty]
  rfl

namespace Disk

variable {d : Disk} {location here cwd : Location} {path name : String} {entry : DiskEntry}

/-- Something other than a link stands at a location. -/
def Stands (d : Disk) (location : Location) : Prop :=
  ∃ entry, d.entry? location = some entry ∧ ∀ target, entry ≠ .link target

theorem hasDirectory_iff :
    d.hasDirectory location = true ↔ ∃ entries, d.entry? location = some (.directory entries) := by
  rw [hasDirectory, Option.any_eq_true]
  constructor
  · rintro ⟨entry, hentry, hdirectory⟩
    cases entry with
    | directory entries => exact ⟨entries, hentry⟩
    | _ => cases hdirectory
  · rintro ⟨entries, hentry⟩
    exact ⟨_, hentry, rfl⟩

theorem hasDirectory_nil (d : Disk) : d.hasDirectory [] = true := rfl

theorem stands_of_hasDirectory (h : d.hasDirectory location = true) : d.Stands location := by
  obtain ⟨entries, hentry⟩ := hasDirectory_iff.mp h
  exact ⟨_, hentry, fun target => nofun⟩

/-- What has something in it is a directory. -/
theorem exists_of_entryIn_concat (h : entryIn entry (location ++ [name]) ≠ none) :
    ∃ entries, entryIn entry location = some (.directory entries) := by
  induction location generalizing entry with
  | nil =>
      cases entry with
      | directory entries => exact ⟨entries, rfl⟩
      | _ => exact absurd rfl h
  | cons first location ih =>
      cases entry with
      | directory entries =>
        rw [List.cons_append, entryIn] at h
        rw [entryIn]
        cases hfirst : entries.lookup first with
        | none => rw [hfirst] at h; exact absurd rfl h
        | some inner => rw [hfirst] at h; exact ih h
      | _ => exact absurd rfl h

theorem hasDirectory_dropLast (h : d.hasDirectory location = true) :
    d.hasDirectory location.dropLast = true := by
  rcases List.eq_nil_or_concat location with rfl | ⟨before, name, rfl⟩
  · exact h
  · obtain ⟨entries, hentry⟩ := hasDirectory_iff.mp h
    rw [List.concat_eq_append] at hentry
    rw [List.concat_eq_append, List.dropLast_concat]
    exact hasDirectory_iff.mpr (exists_of_entryIn_concat (by rw [← entry?, hentry]; nofun))

/-- Names that are followed lead to an entry that is no link. -/
theorem stands_of_resolveFrom {links : Nat} {names : List String}
    (h : d.resolveFrom false links here names = .ok location)
    (hhere : names = [] → d.Stands here) : d.Stands location := by
  -- with names left, `here` is entered next, and only a directory can be
  fun_induction resolveFrom d false links here names with
  | case1 links here =>
      cases h
      exact hhere rfl
  | case3 links here names hdirectory ih =>
      exact ih h fun _ => stands_of_hasDirectory (by simpa using hdirectory)
  | case4 links here names hdirectory hdot ih =>
      exact ih h fun _ => stands_of_hasDirectory (hasDirectory_dropLast (by simpa using hdirectory))
  | case8 here name names hdirectory _ _ target hlink links ih =>
      -- a link is followed from the root, or from the directory it stands in
      refine ih h fun _ => stands_of_hasDirectory ?_
      split
      · exact hasDirectory_nil d
      · simpa using hdirectory
  | case9 links here name names _ _ _ entry hlink hentry ih =>
      exact ih h fun _ => ⟨entry, hentry, hlink⟩
  | case5 _ _ _ _ _ _ _ _ hcreating => cases hcreating
  | case2 => cases h
  | case6 => cases h
  | case7 => cases h

/-- **A path leads to an entry that is no link.** -/
theorem stands_of_resolve (h : d.resolve cwd path = .ok location) : d.Stands location := by
  rw [resolve] at h
  by_cases hempty : path.isEmpty = true
  · rw [if_pos hempty] at h
    cases h
  · rw [if_neg hempty] at h
    refine stands_of_resolveFrom h fun hnames => ?_
    obtain ⟨hnone, hslash⟩ := List.append_eq_nil_iff.mp hnames
    rw [if_pos (Path.endsWithSlash_of_names_eq_nil hnone (by simpa using hempty))] at hslash
    cases hslash

/-- What a path leads to can be read, if it is no directory. -/
theorem exists_readBytes (h : d.resolve cwd path = .ok location)
    (hfile : d.hasDirectory location = false) : ∃ bytes, d.readBytes cwd path = .ok bytes := by
  obtain ⟨entry, hentry, hlink⟩ := stands_of_resolve h
  cases entry with
  | file bytes => exact ⟨bytes, readBytes_of_entry? h hentry⟩
  | link target => exact absurd rfl (hlink target)
  | directory entries =>
    rw [hasDirectory_iff.mpr ⟨entries, hentry⟩] at hfile
    cases hfile

theorem resolve_slash (d : Disk) (cwd : Location) : d.resolve cwd "/" = .ok [] := by
  have hnames : Path.names "/" = [] := by decide +kernel
  have habsolute : Path.isAbsolute "/" = true := by decide +kernel
  have hslash : Path.endsWithSlash "/" = true := by decide +kernel
  rw [resolve, if_neg (by decide), hnames, if_pos habsolute, if_pos hslash]
  simp [resolveFrom, hasDirectory_nil]

/-- A name leads to the file of this name in the root directory. -/
theorem resolve_of_lookup (name : String) {bytes : List UInt8}
    (hfile : d.root.lookup name = some (.file bytes))
    (hnames : Path.names path = [name]) (hslash : Path.endsWithSlash path = false)
    (hname : name ∉ [".", ".."]) : d.resolve [] path = .ok [name] := by
  rw [resolve, Path.isEmpty_eq_false_of_names (hnames ▸ List.cons_ne_nil _ _), hnames, hslash]
  simp only [List.mem_cons, List.not_mem_nil, not_or] at hname
  simp [resolveFrom, hasDirectory, entry?, entryIn, DiskEntry.isDirectory, hname, hfile]

theorem readBytes_of_lookup (name : String) {bytes : List UInt8}
    (hfile : d.root.lookup name = some (.file bytes))
    (hnames : Path.names path = [name]) (hslash : Path.endsWithSlash path = false)
    (hname : name ∉ [".", ".."]) : d.readBytes [] path = .ok bytes := by
  refine readBytes_of_entry? (resolve_of_lookup name hfile hnames hslash hname) ?_
  simp [entryIn, entry?, hfile]

end Disk

end DeclTags
