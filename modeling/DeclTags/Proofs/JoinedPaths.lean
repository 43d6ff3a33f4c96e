import DeclTags.Proofs.Entries
import DeclTags.Proofs.Rows

set_option autoImplicit false

/-! # Joined paths

A name of an entry is joined to a path as one more step of it (`Path.components_join`), so paths
below a root are the same only if the names are (`Path.below_inj`). Where such a path leads to is
settled by where the path before the name leads to: that is a directory which has an entry of this
name (`Disk.hasEntry_of_resolve_join`), and unless the entry is a link, the path leads to it
(`Disk.resolve_join_of_entry`).
-/

namespace DeclTags

namespace Path

/-- A name that an entry of a directory may have. -/
structure IsName (name : String) : Prop where
  not_empty : name ≠ ""
  no_slash : '/' ∉ name.toList
  not_here : name ≠ "."
  not_up : name ≠ ".."

instance (name : String) : Decidable (IsName name) :=
  decidable_of_iff (name ≠ "" ∧ '/' ∉ name.toList ∧ name ≠ "." ∧ name ≠ "..")
    ⟨fun h => ⟨h.1, h.2.1, h.2.2.1, h.2.2.2⟩, fun h => ⟨h.1, h.2, h.3, h.4⟩⟩

/-- The path with names joined to it, one after another. -/
def below (path : String) (names : List String) : String := names.foldl join path

variable {base name path : String}

/-! ## One more name -/

theorem isAbsolute_of_isName (h : IsName name) : isAbsolute name = false :=
  decide_eq_false fun hslash => h.no_slash (List.mem_of_head? hslash)

theorem join_eq (hbase : base.isEmpty = false) (h : IsName name) :
    join base name = base ++ ((if endsWithSlash base then "" else "/") ++ name) := by
  rw [join, isAbsolute_of_isName h, hbase]
  cases endsWithSlash base with
  | true => exact congrArg (base ++ ·) (String.empty_append).symm
  | false => exact String.append_assoc

theorem isEmpty_join (hbase : base.isEmpty = false) (h : IsName name) :
    (join base name).isEmpty = false := by
  rw [← Bool.not_eq_true, String.isEmpty_iff] at hbase ⊢
  rw [join_eq (by simpa using hbase) h]
  simp [hbase]

/-- The names on both sides of a slash. -/
theorem names_of_toList {front back : String}
    (h : path.toList = front.toList ++ '/' :: back.toList) :
    names path = names front ++ names back := by
  rw [names, names, names, h, Text.splitOn_eq, List.splitOn_append_cons_self, Text.splitOn_eq,
    Text.splitOn_eq, List.filter_append, List.map_append]

theorem names_of_isName (h : IsName name) : names name = [name] := by
  have hsplit : Text.splitOn '/' name.toList = [name.toList] := by
    have hone := Text.splitOn_intercalate (List.cons_ne_nil name.toList [])
      (by simpa using h.no_slash)
    simpa using hone
  have hne : name.toList.isEmpty = false := by
    simpa [List.isEmpty_eq_false_iff] using h.not_empty
  rw [names, hsplit, List.filter_cons_of_pos (by simp [hne])]
  simp

theorem names_join (hbase : base.isEmpty = false) (h : IsName name) :
    names (join base name) = names base ++ [name] := by
  rw [join_eq hbase h, ← names_of_isName h]
  cases hslash : endsWithSlash base with
  | false => exact names_of_toList (by simp)
  | true =>
      -- the slash at the end of the path separates the name
      obtain ⟨front, hfront⟩ := List.getLast?_eq_some_iff.mp (of_decide_eq_true hslash)
      have hnames : names base = names (String.ofList front) ++ names "" :=
        names_of_toList (by simpa using hfront)
      rw [hnames, show names "" = [] from rfl, List.append_nil]
      exact names_of_toList (by simp [hfront])

theorem isAbsolute_join (hbase : base.isEmpty = false) (h : IsName name) :
    isAbsolute (join base name) = isAbsolute base := by
  obtain ⟨c, cs, hcs⟩ := List.exists_cons_of_ne_nil (l := base.toList) (by simpa using hbase)
  rw [isAbsolute, isAbsolute, join_eq hbase h, String.toList_append, hcs]
  rfl

theorem endsWithSlash_join (hbase : base.isEmpty = false) (h : IsName name) :
    endsWithSlash (join base name) = false := by
  have hlast : (join base name).toList.getLast? = name.toList.getLast? := by
    have hne : name.toList ≠ [] := by simpa using h.not_empty
    rw [join_eq hbase h, String.toList_append, String.toList_append, List.getLast?_append,
      List.getLast?_append, List.getLast?_eq_some_getLast hne, Option.some_or, Option.some_or]
  rw [endsWithSlash, hlast]
  exact decide_eq_false fun hslash => h.no_slash (List.mem_of_getLast? hslash)

theorem parts_join (hbase : base.isEmpty = false) (h : IsName name) :
    parts (join base name) = parts base ++ [name] := by
  rw [parts, parts, names_join hbase h, List.filter_append,
    List.filter_cons_of_pos (by simpa using h.not_here), List.filter_nil]

/-- **A name that is joined to a path is its last step.** -/
theorem components_join (hbase : base.isEmpty = false) (h : IsName name) :
    components (join base name) = components base ++ [.name name] := by
  have hhead : (names base ++ [name]).head? = some "." ↔ (names base).head? = some "." := by
    cases names base with
    | nil => simp [h.not_here]
    | cons first names => rfl
  rw [components, components, isAbsolute_join hbase h, names_join hbase h, parts_join hbase h,
    List.map_append, ← List.append_assoc]
  simp only [hhead, List.map_cons, List.map_nil, Component.ofName, if_neg h.not_up]

/-! ## More names -/

theorem isName_concat {names : List String} (h : ∀ n ∈ names, IsName n) (hname : IsName name) :
    ∀ n ∈ names ++ [name], IsName n :=
  List.forall_mem_append.mpr ⟨h, List.forall_mem_singleton.mpr hname⟩

theorem below_concat (path : String) (names : List String) (name : String) :
    below path (names ++ [name]) = join (below path names) name := by
  rw [below, List.foldl_append]
  rfl

theorem isEmpty_below {names : List String} (hpath : path.isEmpty = false)
    (h : ∀ name ∈ names, IsName name) : (below path names).isEmpty = false := by
  induction names generalizing path with
  | nil => exact hpath
  | cons name names ih =>
      obtain ⟨hname, hnames⟩ := List.forall_mem_cons.mp h
      exact ih (isEmpty_join hpath hname) hnames

theorem components_below {names : List String} (hpath : path.isEmpty = false)
    (h : ∀ name ∈ names, IsName name) :
    components (below path names) = components path ++ names.map Component.name := by
  induction names generalizing path with
  | nil => exact (List.append_nil _).symm
  | cons name names ih =>
      obtain ⟨hname, hnames⟩ := List.forall_mem_cons.mp h
      show components (below (join path name) names) = _
      rw [ih (isEmpty_join hpath hname) hnames, components_join hpath hname, List.append_assoc]
      rfl

/-- **Paths below a root are the same only if the names are.** -/
theorem below_inj {ns ms : List String} (hpath : path.isEmpty = false)
    (hns : ∀ name ∈ ns, IsName name) (hms : ∀ name ∈ ms, IsName name)
    (h : components (below path ns) = components (below path ms)) : ns = ms := by
  rw [components_below hpath hns, components_below hpath hms] at h
  exact (List.map_inj_right fun _ _ => Component.name.inj).mp (List.append_cancel_left h)

end Path

namespace Disk

variable {d : Disk} {cwd here there start : Location} {path name : String} {links : Nat}
  {names : List String}

/-! ## Resolving one more name -/

/-- Where names are followed to, more names are followed from there. -/
theorem resolveFrom_append (h : d.resolveFrom false links start names = .ok here) :
    ∃ left, ∀ more, d.resolveFrom false links start (names ++ more) =
      d.resolveFrom false left here more := by
  -- `left` counts the links that may still be followed, whatever names come next
  fun_induction resolveFrom d false links start names with
  | case1 links start =>
      cases h
      exact ⟨links, fun more => rfl⟩
  | case3 links start names hdirectory ih =>
      obtain ⟨left, hleft⟩ := ih h
      refine ⟨left, fun more => ?_⟩
      rw [List.cons_append, resolveFrom, if_neg hdirectory, if_pos rfl, hleft]
  | case4 links start names hdirectory hdot ih =>
      obtain ⟨left, hleft⟩ := ih h
      refine ⟨left, fun more => ?_⟩
      rw [List.cons_append, resolveFrom, if_neg hdirectory, if_neg hdot, if_pos rfl, hleft]
  | case8 start name names hdirectory hdot hup target hlink links ih =>
      obtain ⟨left, hleft⟩ := ih h
      refine ⟨left, fun more => ?_⟩
      rw [List.cons_append, resolveFrom, if_neg hdirectory, if_neg hdot, if_neg hup, hlink]
      simpa only [List.append_assoc, dite_eq_ite] using hleft more
  | case9 links start name names hdirectory hdot hup entry hlink hentry ih =>
      obtain ⟨left, hleft⟩ := ih h
      refine ⟨left, fun more => ?_⟩
      rw [List.cons_append, resolveFrom, if_neg hdirectory, if_neg hdot, if_neg hup, hentry,
        ← hleft more]
      cases entry with
      | link target => exact absurd rfl (hlink target)
      | _ => rfl
  | case5 _ _ _ _ _ _ _ _ hcreating => cases hcreating
  | case2 => cases h
  | case6 => cases h
  | case7 => cases h

/-- Where some names cannot be followed, no more of them can. -/
theorem resolveFrom_append_error {fault : DiskFault}
    (h : d.resolveFrom false links start names = .error fault) (more : List String) :
    d.resolveFrom false links start (names ++ more) = .error fault := by
  fun_induction resolveFrom d false links start names with
  | case1 => cases h
  | case2 links start name names hdirectory =>
      cases h
      rw [List.cons_append, resolveFrom, if_pos hdirectory]
  | case3 links start names hdirectory ih =>
      rw [List.cons_append, resolveFrom, if_neg hdirectory, if_pos rfl]
      exact ih h
  | case4 links start names hdirectory hdot ih =>
      rw [List.cons_append, resolveFrom, if_neg hdirectory, if_neg hdot, if_pos rfl]
      exact ih h
  | case5 _ _ _ _ _ _ _ _ hcreating => cases hcreating
  | case6 links start name names hdirectory hdot hup hnone hcreating =>
      cases h
      rw [List.cons_append, resolveFrom, if_neg hdirectory, if_neg hdot, if_neg hup, hnone]
      rfl
  | case7 start name names hdirectory hdot hup target hlink =>
      cases h
      rw [List.cons_append, resolveFrom, if_neg hdirectory, if_neg hdot, if_neg hup, hlink]
  | case8 start name names hdirectory hdot hup target hlink links ih =>
      rw [List.cons_append, resolveFrom, if_neg hdirectory, if_neg hdot, if_neg hup, hlink]
      simpa only [List.append_assoc, dite_eq_ite] using ih h
  | case9 links start name names hdirectory hdot hup entry hlink hentry ih =>
      rw [List.cons_append, resolveFrom, if_neg hdirectory, if_neg hdot, if_neg hup, hentry]
      cases entry with
      | link target => exact absurd rfl (hlink target)
      | _ => exact ih h

/-- A name that is followed is one of an entry of a directory. -/
theorem exists_of_resolveFrom_name (hname : Path.IsName name)
    (h : d.resolveFrom false links here [name] = .ok there) :
    d.hasDirectory here = true ∧ ∃ entry, d.entry? (here ++ [name]) = some entry := by
  rw [resolveFrom, if_neg hname.not_here, if_neg hname.not_up] at h
  split at h
  · cases h
  next hdirectory =>
  refine ⟨by simpa using hdirectory, ?_⟩
  split at h
  · cases h
  · next target hlink => exact ⟨_, hlink⟩
  · next entry _ hentry => exact ⟨_, hentry⟩

theorem resolveFrom_name {entry : DiskEntry} (hname : Path.IsName name)
    (hhere : d.hasDirectory here = true) (hentry : d.entry? (here ++ [name]) = some entry)
    (hlink : ∀ target, entry ≠ .link target) :
    d.resolveFrom false links here [name] = .ok (here ++ [name]) := by
  rw [resolveFrom, if_neg hname.not_here, if_neg hname.not_up, if_neg (by simp [hhere]), hentry]
  cases entry with
  | link target => exact absurd rfl (hlink target)
  | _ => exact resolveFrom.eq_1 _ _ _ _

/-! ## Resolving joined paths -/

/-- Where the names of a path are followed from. -/
def startOf (cwd : Location) (path : String) : Location :=
  if Path.isAbsolute path then [] else cwd

theorem isEmpty_of_resolve (h : d.resolve cwd path = .ok here) : path.isEmpty = false := by
  rw [resolve] at h
  split at h
  · cases h
  · next hempty => exact Bool.eq_false_iff.mpr hempty

/-- A slash at the end of a path only asks for a directory. -/
theorem resolve_eq_ok_iff : d.resolve cwd path = .ok here ↔
    path.isEmpty = false ∧
      d.resolveFrom false linkLimit (startOf cwd path) (Path.names path) = .ok here ∧
        (Path.endsWithSlash path = true → d.hasDirectory here = true) := by
  by_cases hempty : path.isEmpty = true
  · exact iff_of_false (fun h => by rw [isEmpty_of_resolve h] at hempty; cases hempty)
      fun h => by rw [h.1] at hempty; cases hempty
  rw [resolve, if_neg hempty, ← startOf]
  cases hslash : Path.endsWithSlash path with
  | false => simpa using fun _ => hempty
  | true =>
    rw [if_pos rfl]
    cases hnames : d.resolveFrom false linkLimit (startOf cwd path) (Path.names path) with
    | error fault =>
      rw [resolveFrom_append_error hnames]
      constructor
      · intro h
        cases h
      · rintro ⟨-, h, -⟩
        cases h
    | ok there =>
      obtain ⟨left, hleft⟩ := resolveFrom_append hnames
      rw [hleft, resolveFrom, if_pos rfl, resolveFrom]
      cases hthere : d.hasDirectory there with
      | false =>
        constructor
        · intro h
          cases h
        · rintro ⟨-, h, hdirectory⟩
          cases h
          cases hthere.symm.trans (hdirectory rfl)
      | true =>
        constructor
        · intro h
          cases h
          exact ⟨by simpa using hempty, rfl, fun _ => hthere⟩
        · exact fun h => h.2.1

theorem resolve_join (hpath : path.isEmpty = false) (hname : Path.IsName name) :
    d.resolve cwd (Path.join path name) =
      d.resolveFrom false linkLimit (startOf cwd path) (Path.names path ++ [name]) := by
  rw [resolve, Path.isEmpty_join hpath hname, Path.isAbsolute_join hpath hname,
    Path.names_join hpath hname, Path.endsWithSlash_join hpath hname]
  simp [startOf]

/-- **A path before a name leads to a directory with an entry of this name.** -/
theorem exists_of_resolve_join (hpath : path.isEmpty = false) (hname : Path.IsName name)
    (h : d.resolve cwd (Path.join path name) = .ok there) :
    ∃ here, d.resolve cwd path = .ok here ∧ d.hasDirectory here = true ∧
      ∃ entry, d.entry? (here ++ [name]) = some entry := by
  rw [resolve_join hpath hname] at h
  cases hnames : d.resolveFrom false linkLimit (startOf cwd path) (Path.names path) with
  | error fault =>
    rw [resolveFrom_append_error hnames] at h
    cases h
  | ok here =>
    obtain ⟨left, hleft⟩ := resolveFrom_append hnames
    rw [hleft] at h
    obtain ⟨hdirectory, hentry⟩ := exists_of_resolveFrom_name hname h
    exact ⟨here, resolve_eq_ok_iff.mpr ⟨hpath, hnames, fun _ => hdirectory⟩, hdirectory, hentry⟩

/-- From where a path leads to, a name that is joined to it is followed. -/
theorem resolve_join_of_resolve (hname : Path.IsName name) (h : d.resolve cwd path = .ok here) :
    ∃ left, d.resolve cwd (Path.join path name) = d.resolveFrom false left here [name] := by
  obtain ⟨hpath, hnames, -⟩ := resolve_eq_ok_iff.mp h
  obtain ⟨left, hleft⟩ := resolveFrom_append hnames
  exact ⟨left, (resolve_join hpath hname).trans (hleft [name])⟩

/-- **A name of an entry that is no link leads to the entry.** -/
theorem resolve_join_of_entry {entry : DiskEntry} (hname : Path.IsName name)
    (h : d.resolve cwd path = .ok here) (hhere : d.hasDirectory here = true)
    (hentry : d.entry? (here ++ [name]) = some entry) (hlink : ∀ target, entry ≠ .link target) :
    d.resolve cwd (Path.join path name) = .ok (here ++ [name]) := by
  obtain ⟨left, hleft⟩ := resolve_join_of_resolve hname h
  rw [hleft]
  exact resolveFrom_name hname hhere hentry hlink

/-- A path below another leads somewhere only if the other does. -/
theorem exists_of_resolve_below (hpath : path.isEmpty = false)
    (hnames : ∀ name ∈ names, Path.IsName name)
    (h : d.resolve cwd (Path.below path names) = .ok there) :
    ∃ here, d.resolve cwd path = .ok here := by
  induction names generalizing path with
  | nil => exact ⟨there, h⟩
  | cons name names ih =>
      obtain ⟨hname, hrest⟩ := List.forall_mem_cons.mp hnames
      obtain ⟨next, hnext⟩ := ih (Path.isEmpty_join hpath hname) hrest h
      obtain ⟨here, hhere, -⟩ := exists_of_resolve_join hpath hname hnext
      exact ⟨here, hhere⟩

end Disk

end DeclTags
