import DeclTags.Proofs.Entries

set_option autoImplicit false

/-! # Files that are written

A file is written where its path leads to, and that is a place where no directory and no link stands
(`Disk.isVacant_of_writeLocation`). So nothing else changes: at every other location stands what
stood there before (`Disk.look_of_write`). The path leads to the file afterwards, links on the way
included, and what is read from it is what was written (`Disk.readBytes_of_write`).
-/

namespace DeclTags

/-- The entry without what is in it. -/
def DiskEntry.emptied : DiskEntry → DiskEntry
  | .directory _ => .directory []
  | entry => entry

namespace Disk

variable {d : Disk} {location other : Location} {entry : DiskEntry}
  {entries : List (String × DiskEntry)} {bytes : List UInt8}

/-- What stands at a location; of a directory only that it is one. -/
def look (d : Disk) (location : Location) : Option DiskEntry :=
  (d.entry? location).map DiskEntry.emptied

/-! ## Putting an entry on the disk -/

theorem lookup_setEntry (name other : String) (entry : DiskEntry)
    (entries : List (String × DiskEntry)) :
    (setEntry name entry entries).lookup other =
      if other = name then some entry else entries.lookup other := by
  induction entries with
  | nil =>
      by_cases h : other = name
      · simp [setEntry, h]
      · simp [setEntry, h, List.lookup_cons, beq_false_of_ne h]
  | cons e entries ih =>
      obtain ⟨first, inner⟩ := e
      rw [setEntry]
      split
      · next heq =>
        cases heq
        by_cases h : other = first
        · simp [h]
        · simp [h, List.lookup_cons, beq_false_of_ne h]
      · next hne =>
        rw [List.lookup_cons, List.lookup_cons, ih]
        by_cases h : other = first
        · simp [h, hne]
        · simp [beq_false_of_ne h]

/-- The location lies in a directory. -/
def HasParent (entries : List (String × DiskEntry)) (location : Location) : Prop :=
  location ≠ [] ∧ ∃ inner, entryIn (.directory entries) location.dropLast = some (.directory inner)

/-- On the way to a location in a directory there are directories. -/
theorem HasParent.exists_directory {name second : String} {names : Location}
    (h : HasParent entries (name :: second :: names)) :
    ∃ inside, entries.lookup name = some (.directory inside) ∧
      HasParent inside (second :: names) := by
  obtain ⟨-, inner, hinner⟩ := h
  rw [List.dropLast_cons_cons, entryIn] at hinner
  cases hname : entries.lookup name with
  | none =>
    rw [hname] at hinner
    cases hinner
  | some entry =>
    rw [hname] at hinner
    cases entry with
    | directory inside => exact ⟨inside, rfl, List.cons_ne_nil _ _, inner, hinner⟩
    | _ =>
      cases hdrop : (second :: names).dropLast <;> rw [hdrop] at hinner <;> cases hinner

/-- What a deeper location is put into is the directory on the way to it, and nothing else. -/
theorem lookup_putIn {name second : String} {names : Location}
    {inside : List (String × DiskEntry)} (h : entries.lookup name = some (.directory inside))
    (first : String) :
    (putIn entry (name :: second :: names) entries).lookup first =
      if first = name then some (.directory (putIn entry (second :: names) inside))
      else entries.lookup first := by
  rw [putIn, h, lookup_setEntry]
  simp

/-- What is put at a location stands there. -/
theorem entryIn_putIn (h : HasParent entries location) :
    entryIn (.directory (putIn entry location entries)) location = some entry := by
  induction location generalizing entries with
  | nil => exact absurd rfl h.1
  | cons name names ih =>
      cases names with
      | nil =>
        rw [putIn, entryIn, lookup_setEntry, if_pos rfl]
        rfl
      | cons second names =>
        obtain ⟨inside, hname, hinside⟩ := h.exists_directory
        rw [entryIn, lookup_putIn hname, if_pos rfl]
        exact ih hinside

/-- There is nothing inside of what is no directory. -/
theorem entryIn_cons_of_file {name : String} {names : Location}
    (h : ∀ entries, entry ≠ .directory entries) : entryIn entry (name :: names) = none := by
  cases entry with
  | directory entries => exact absurd rfl (h entries)
  | _ => rfl

/-- A file that is put where no directory stands changes nothing at other locations. -/
theorem emptied_entryIn_putIn (h : HasParent entries location)
    (hold : ∀ inner, entryIn (.directory entries) location ≠ some (.directory inner))
    (hother : other ≠ location) :
    (entryIn (.directory (putIn (.file bytes) location entries)) other).map DiskEntry.emptied =
      (entryIn (.directory entries) other).map DiskEntry.emptied := by
  induction location generalizing entries other with
  | nil => exact absurd rfl h.1
  | cons name names ih =>
      cases other with
      | nil => rfl
      | cons first rest =>
        cases names with
        | nil =>
          rw [putIn, entryIn, entryIn, lookup_setEntry]
          by_cases hfirst : first = name
          · -- neither the new file nor the old one has anything in it
            subst hfirst
            rw [if_pos rfl]
            have hrest : rest ≠ [] := fun hnil => hother (by rw [hnil])
            obtain ⟨second, rest, rfl⟩ := List.exists_cons_of_ne_nil hrest
            cases hlookup : entries.lookup first with
            | none => rfl
            | some old =>
              have hfile : ∀ inner, old ≠ .directory inner := by
                rintro inner rfl
                exact hold inner (by rw [entryIn, hlookup]; rfl)
              show (entryIn (.file bytes) _).map _ = (entryIn old _).map _
              rw [entryIn_cons_of_file hfile]
              rfl
          · rw [if_neg hfirst]
        | cons second names =>
          obtain ⟨inside, hname, hinside⟩ := h.exists_directory
          rw [entryIn, entryIn, lookup_putIn hname]
          by_cases hfirst : first = name
          · subst hfirst
            rw [if_pos rfl, hname]
            refine ih hinside (fun inner hinner => hold inner ?_) fun heq => hother (by rw [heq])
            rw [entryIn, hname]
            exact hinner
          · rw [if_neg hfirst]

/-! ## Where a file is written -/

/-- A file stands at a location, or nothing does and it lies in a directory. -/
theorem vacant_of_resolveFrom {links : Nat} {here : Location} {names : List String}
    (h : d.resolveFrom true links here names = .ok location)
    (hhere : names = [] → d.Stands here) :
    d.Stands location ∨
      d.entry? location = none ∧ location ≠ [] ∧ d.hasDirectory location.dropLast = true := by
  -- as for paths that are read, but for the last name, which may be missing in its directory
  fun_induction resolveFrom d true links here names with
  | case1 links here =>
      cases h
      exact .inl (hhere rfl)
  | case3 links here names hdirectory ih =>
      exact ih h fun _ => stands_of_hasDirectory (by simpa using hdirectory)
  | case4 links here names hdirectory hdot ih =>
      exact ih h fun _ => stands_of_hasDirectory (hasDirectory_dropLast (by simpa using hdirectory))
  | case5 links here name names hdirectory _ _ hnone hcreating =>
      cases h
      refine .inr ⟨hnone, by simp, ?_⟩
      rw [List.dropLast_concat]
      simpa using hdirectory
  | case8 here name names hdirectory _ _ target hlink links ih =>
      refine ih h fun _ => stands_of_hasDirectory ?_
      split
      · exact hasDirectory_nil d
      · simpa using hdirectory
  | case9 links here name names _ _ _ entry hlink hentry ih =>
      exact ih h fun _ => ⟨entry, hentry, hlink⟩
  | case2 => cases h
  | case6 => cases h
  | case7 => cases h

/-- A place for a file: it lies in a directory, and neither a directory nor a link stands there. -/
structure IsVacant (d : Disk) (location : Location) : Prop where
  ne_nil : location ≠ []
  parent : d.hasDirectory location.dropLast = true
  not_directory : d.hasDirectory location = false
  not_link : ∀ target, d.entry? location ≠ some (.link target)

theorem isVacant_of_resolveFrom {links : Nat} {here : Location} {names : List String}
    (h : d.resolveFrom true links here names = .ok location) (hnames : names ≠ [])
    (hdirectory : d.hasDirectory location = false) : d.IsVacant location := by
  rcases vacant_of_resolveFrom h (fun hnil => absurd hnil hnames) with
    ⟨entry, hentry, hlink⟩ | ⟨hnone, hne, hparent⟩
  · rcases List.eq_nil_or_concat location with rfl | ⟨before, name, rfl⟩
    · cases hdirectory.symm.trans (hasDirectory_nil d)
    · rw [List.concat_eq_append] at hentry hdirectory ⊢
      refine ⟨by simp, ?_, hdirectory, fun target heq => ?_⟩
      · have hsome : d.entry? (before ++ [name]) ≠ none := hentry ▸ Option.some_ne_none entry
        rw [List.dropLast_concat]
        exact hasDirectory_iff.mpr (exists_of_entryIn_concat hsome)
      · exact hlink target (Option.some.inj (hentry.symm.trans heq))
  · refine ⟨hne, hparent, hdirectory, fun target heq => ?_⟩
    cases hnone.symm.trans heq

theorem writeLocation_eq_ok_iff {cwd : Location} {path : String} :
    d.writeLocation cwd path = .ok location ↔
      path.isEmpty = false ∧ Path.endsWithSlash path = false ∧
        d.resolveFrom true linkLimit (if Path.isAbsolute path then [] else cwd)
          (Path.names path) = .ok location ∧ d.hasDirectory location = false := by
  rw [writeLocation]
  cases hempty : path.isEmpty with
  | true => exact iff_of_false nofun nofun
  | false =>
    cases hfound : d.resolveFrom true linkLimit (if Path.isAbsolute path then [] else cwd)
        (Path.names path) with
    | error fault => exact iff_of_false nofun fun h => nomatch h.2.2.1
    | ok found =>
      simp only [bind, Except.bind, pure, Except.pure, Bool.false_eq_true, if_false]
      cases Path.endsWithSlash path <;> cases hdirectory : d.hasDirectory found <;> simp <;>
        exact fun heq => heq ▸ hdirectory

/-- A name is the place of the file of this name in the root directory. -/
theorem writeLocation_of_lookup (name : String) {path : String}
    (hfile : d.root.lookup name = some (.file bytes))
    (hnames : Path.names path = [name]) (hslash : Path.endsWithSlash path = false)
    (hname : name ∉ [".", ".."]) : d.writeLocation [] path = .ok [name] := by
  refine writeLocation_eq_ok_iff.mpr
    ⟨Path.isEmpty_eq_false_of_names (hnames ▸ List.cons_ne_nil _ _), hslash, ?_, ?_⟩
  · simp only [List.mem_cons, List.not_mem_nil, not_or] at hname
    simp [resolveFrom, hasDirectory, entry?, entryIn, DiskEntry.isDirectory, hname, hfile, hnames]
  · simp [hasDirectory, entry?, entryIn, DiskEntry.isDirectory, hfile]

theorem isVacant_of_writeLocation {cwd : Location} {path : String}
    (h : d.writeLocation cwd path = .ok location) : d.IsVacant location := by
  obtain ⟨hempty, hslash, hlocation, hdirectory⟩ := writeLocation_eq_ok_iff.mp h
  refine isVacant_of_resolveFrom hlocation (fun hnames => ?_) hdirectory
  rw [Path.endsWithSlash_of_names_eq_nil hnames (by simpa using hempty)] at hslash
  cases hslash

/-! ## The disk afterwards -/

theorem hasDirectory_eq_look (d : Disk) (location : Location) :
    d.hasDirectory location = (d.look location).any DiskEntry.isDirectory := by
  rw [hasDirectory, look, Option.any_map]
  refine congrArg (Option.any · _) (funext fun entry => ?_)
  cases entry <;> rfl

theorem isLink_iff_look {target : String} :
    d.entry? location = some (.link target) ↔ d.look location = some (.link target) := by
  rw [look, Option.map_eq_some_iff]
  constructor
  · intro h
    exact ⟨_, h, rfl⟩
  · rintro ⟨entry, hentry, hlink⟩
    cases entry <;> cases hlink
    exact hentry

theorem entryAt_put (h : d.IsVacant location) :
    entry? (d.put location entry) location = some entry :=
  entryIn_putIn ⟨h.ne_nil, hasDirectory_iff.mp h.parent⟩

theorem look_put (h : d.IsVacant location) (hother : other ≠ location) :
    (d.put location (.file bytes)).look other = d.look other := by
  refine emptied_entryIn_putIn ⟨h.ne_nil, hasDirectory_iff.mp h.parent⟩ (fun inner hinner => ?_)
    hother
  have hdirectory := h.not_directory
  rw [hasDirectory_iff.mpr ⟨inner, hinner⟩] at hdirectory
  cases hdirectory

theorem stands_iff_look :
    d.Stands location ↔ ∃ entry, d.look location = some entry ∧ ∀ target, entry ≠ .link target := by
  constructor
  · rintro ⟨entry, hentry, hlink⟩
    refine ⟨entry.emptied, by rw [look, hentry]; rfl, fun target heq => ?_⟩
    cases entry <;> cases heq
    exact hlink target rfl
  · rintro ⟨entry, hentry, hlink⟩
    obtain ⟨entry', hentry', rfl⟩ := Option.map_eq_some_iff.mp hentry
    exact ⟨entry', hentry', fun target heq => hlink target (by rw [heq]; rfl)⟩

theorem stands_put (h : d.IsVacant location) (hother : d.Stands other) :
    (d.put location (.file bytes)).Stands other := by
  by_cases heq : other = location
  · subst heq
    exact ⟨_, entryAt_put h, nofun⟩
  · rwa [stands_iff_look, look_put h heq, ← stands_iff_look]

/-- The names that led to the place of a file lead to the file. -/
theorem resolveFrom_put (hvacant : d.IsVacant location) {links : Nat} {here : Location}
    {names : List String} (h : d.resolveFrom true links here names = .ok location) :
    (d.put location (.file bytes)).resolveFrom false links here names = .ok location := by
  -- the file does not take the place of a directory, so what was entered can be entered again
  have hsame : ∀ other, d.hasDirectory other = true →
      (d.put location (.file bytes)).hasDirectory other = true := by
    intro other hother
    have hne : other ≠ location := by
      rintro rfl
      cases hother.symm.trans hvacant.not_directory
    rwa [hasDirectory_eq_look, look_put hvacant hne, ← hasDirectory_eq_look]
  fun_induction resolveFrom d true links here names with
  | case1 links here =>
      cases h
      rw [resolveFrom]
  | case3 links here names hdirectory ih =>
      have hhere := hsame here (by simpa using hdirectory)
      rw [resolveFrom, if_neg (by simp [hhere]), if_pos rfl]
      exact ih h
  | case4 links here names hdirectory hdot ih =>
      have hhere := hsame here (by simpa using hdirectory)
      rw [resolveFrom, if_neg (by simp [hhere]), if_neg hdot, if_pos rfl]
      exact ih h
  | case5 links here name names hdirectory hdot hup hnone hcreating =>
      -- the name was missing, and there is the file now
      cases h
      have hhere := hsame here (by simpa using hdirectory)
      rw [resolveFrom, if_neg (by simp [hhere]), if_neg hdot, if_neg hup, entryAt_put hvacant,
        List.isEmpty_iff.mp hcreating]
      exact resolveFrom.eq_1 _ _ _ _
  | case8 here name names hdirectory hdot hup target hlink links ih =>
      have hhere := hsame here (by simpa using hdirectory)
      have hne : here ++ [name] ≠ location := by
        rintro rfl
        exact hvacant.not_link target hlink
      have hlink' : entry? (d.put location (.file bytes)) (here ++ [name]) =
          some (.link target) := by
        rwa [isLink_iff_look, look_put hvacant hne, ← isLink_iff_look]
      rw [resolveFrom, if_neg (by simp [hhere]), if_neg hdot, if_neg hup, hlink']
      exact ih h
  | case9 links here name names hdirectory hdot hup entry hlink hentry ih =>
      have hhere := hsame here (by simpa using hdirectory)
      obtain ⟨entry', hentry', hlink'⟩ := stands_put hvacant ⟨entry, hentry, hlink⟩
      rw [resolveFrom, if_neg (by simp [hhere]), if_neg hdot, if_neg hup, hentry']
      cases entry' with
      | link target => exact absurd rfl (hlink' target)
      | _ => exact ih h
  | case2 => cases h
  | case6 => cases h
  | case7 => cases h

section Write

variable {d' : Disk} {cwd : Location} {path : String}

theorem write_eq_ok_iff : d.write cwd path bytes = .ok d' ↔
    ∃ location, d.writeLocation cwd path = .ok location ∧ d.put location (.file bytes) = d' := by
  rw [write]
  cases d.writeLocation cwd path with
  | error fault => exact iff_of_false nofun fun ⟨_, h, _⟩ => nomatch h
  | ok location => simp [bind, Except.bind, pure, Except.pure]

/-- **What was written is read back.** -/
theorem readBytes_of_write (h : d.write cwd path bytes = .ok d') :
    d'.readBytes cwd path = .ok bytes := by
  obtain ⟨location, hlocation, rfl⟩ := write_eq_ok_iff.mp h
  have hvacant := isVacant_of_writeLocation hlocation
  obtain ⟨hempty, hslash, hresolved, -⟩ := writeLocation_eq_ok_iff.mp hlocation
  refine readBytes_of_entry? ?_ (entryAt_put hvacant)
  rw [resolve, hempty, hslash]
  simpa using resolveFrom_put hvacant hresolved

/-- **Nothing else changes.** -/
theorem look_of_write (h : d.write cwd path bytes = .ok d')
    (hother : d.writeLocation cwd path ≠ .ok other) : d'.look other = d.look other := by
  obtain ⟨location, hlocation, rfl⟩ := write_eq_ok_iff.mp h
  refine look_put (isVacant_of_writeLocation hlocation) ?_
  rintro rfl
  exact hother hlocation

end Write

end Disk

end DeclTags
