import DeclTags.Registry
import Mathlib.Data.List.Perm.Basic
import Mathlib.Data.List.Sort

set_option autoImplicit false

/-! # What a registry holds

A registry is what its names lead to: `byName?_insert` says what one more language changes, and two
registries in which every name leads to the same language are the same (`Registry.ext_byName`). The
language of an extension is the one of the least name among those that claim it
(`forExtension?_eq_some_iff`), and so it does not depend on the order in which languages are met
(`sorted_head?_eq_forExtension?`).
-/

namespace DeclTags

/-! ## Languages -/

namespace Profile

/-- The profile claims a file extension, given with or without leading points: one of its own
extensions is the same but for the case of ASCII letters. -/
def Claims (p : Profile) (extension : String) : Prop :=
  ∃ own ∈ p.extensions,
    own.toList.map Char.toLower = (extension.toList.dropWhile (· = '.')).map Char.toLower

theorem handlesExtension_iff (p : Profile) (extension : String) :
    p.handlesExtension extension = true ↔ p.Claims extension := by
  simp only [handlesExtension, List.any_eq_true, sameIgnoringCase, beq_iff_eq,
    String.toList_ofList, Claims]
  rfl

end Profile

theorem toOption_eq_some_iff {ε α : Type} {result : Except ε α} {a : α} :
    result.toOption = some a ↔ result = .ok a := by
  cases result <;> simp [Except.toOption]

theorem Grammar.compile_eq_ok_iff {p : Profile} {g : Grammar} :
    compile p = .ok g ↔ p.Valid ∧ g = ofProfile p := by
  rw [compile, Profile.Valid]
  cases p.fault? with
  | none => simp [eq_comm]
  | some fault => simp

namespace Language

/-- The language of a profile without fault. -/
def ofProfile (p : Profile) (h : p.Valid) : Language :=
  ⟨p, .ofProfile p, Grammar.compile_eq_ok_iff.mpr ⟨h, rfl⟩⟩

@[simp] theorem ofProfile_name {p : Profile} (h : p.Valid) : (ofProfile p h).name = p.name := rfl

theorem grammar_eq (l : Language) : l.grammar = .ofProfile l.profile :=
  (Grammar.compile_eq_ok_iff.mp l.compiled).2

/-- A language is its profile. -/
theorem ext_profile {k l : Language} (h : k.profile = l.profile) : k = l := by
  have hg : k.grammar = l.grammar := by rw [k.grammar_eq, l.grammar_eq, h]
  cases k
  cases l
  cases h
  cases hg
  rfl

/-- The order of languages by their names. -/
def nameLe (k l : Language) : Bool := Text.le k.name l.name

theorem nameLe_iff {k l : Language} : nameLe k l = true ↔ k.name ≤ l.name := decide_eq_true_iff

theorem nameLe_total (k l : Language) : nameLe k l || nameLe l k := Text.le_total _ _

theorem nameLe_trans (j k l : Language) (hjk : nameLe j k = true) (hkl : nameLe k l = true) :
    nameLe j l = true := Text.le_trans _ _ _ hjk hkl

end Language

namespace Registry

variable {r s : Registry} {k l : Language} {name extension : String}

/-! ## Names -/

theorem find?_insertLanguage (l : Language) (languages : List Language) (name : String) :
    (insertLanguage l languages).find? (·.name == name) =
      if name = l.name then some l else languages.find? (·.name == name) := by
  induction languages with
  | nil =>
      by_cases h : name = l.name
      · rw [if_pos h, insertLanguage, List.find?_cons_of_pos (by simp [h])]
      · rw [if_neg h, insertLanguage, List.find?_cons_of_neg (by simp [Ne.symm h])]
  | cons k languages ih =>
      rw [insertLanguage]
      split
      · next heq =>
        -- `k` is replaced
        by_cases h : name = l.name
        · rw [if_pos h, List.find?_cons_of_pos (by simp [h])]
        · rw [if_neg h, List.find?_cons_of_neg (by simp [Ne.symm h]),
            List.find?_cons_of_neg (by simp [← heq, Ne.symm h])]
      next hne =>
      split
      · by_cases h : name = l.name
        · rw [if_pos h, List.find?_cons_of_pos (by simp [h])]
        · rw [if_neg h, List.find?_cons_of_neg (by simp [Ne.symm h])]
      · by_cases hk : k.name = name
        · rw [List.find?_cons_of_pos (by simp [hk]), List.find?_cons_of_pos (by simp [hk]),
            if_neg (fun h => hne (hk.trans h).symm)]
        · rw [List.find?_cons_of_neg (by simp [hk]), List.find?_cons_of_neg (by simp [hk]), ih]

/-- One more language changes what its own name leads to, and nothing else. -/
theorem byName?_insert (r : Registry) (l : Language) (name : String) :
    (r.insert l).byName? name = if name = l.name then some l else r.byName? name :=
  find?_insertLanguage l r.languages name

theorem name_eq_of_byName? (h : r.byName? name = some l) : l.name = name := by
  simpa using List.find?_some (p := fun l : Language => l.name == name) h

theorem names_nodup (r : Registry) : r.names.Nodup :=
  List.pairwise_map.mpr (r.sorted.imp String.ne_of_lt)

theorem eq_of_name_eq (hk : k ∈ r.languages) (hl : l ∈ r.languages) (h : k.name = l.name) :
    k = l := List.inj_on_of_nodup_map r.names_nodup hk hl h

/-- A name leads to the registered language of that name. -/
theorem byName?_eq_some_iff : r.byName? name = some l ↔ l ∈ r.languages ∧ l.name = name := by
  constructor
  · intro h
    exact ⟨List.mem_of_find?_eq_some h, name_eq_of_byName? h⟩
  · rintro ⟨hl, rfl⟩
    have hfound : (r.byName? l.name).isSome := List.find?_isSome.mpr ⟨l, hl, by simp⟩
    obtain ⟨k, hk⟩ := Option.isSome_iff_exists.mp hfound
    rw [hk, eq_of_name_eq (List.mem_of_find?_eq_some hk) hl (name_eq_of_byName? hk)]

theorem byName?_name (hl : l ∈ r.languages) : r.byName? l.name = some l :=
  byName?_eq_some_iff.mpr ⟨hl, rfl⟩

theorem mem_names_iff : name ∈ r.names ↔ (r.byName? name).isSome := by
  rw [names, List.mem_map, Option.isSome_iff_exists]
  exact exists_congr fun l => byName?_eq_some_iff.symm

theorem exists_require_iff : (∃ l, r.require name = .ok l) ↔ name ∈ r.names := by
  rw [mem_names_iff, require]
  cases r.byName? name <;> simp

theorem mem_names_insert :
    name ∈ (r.insert l).names ↔ name ∈ r.names ∨ l.name = name := by
  rw [mem_names_iff, mem_names_iff, byName?_insert]
  by_cases h : name = l.name
  · simp [h]
  · simp [h, Ne.symm h]

/-- Languages in the order of their names are determined by which they are. -/
theorem eq_of_perm_of_sorted {found languages : List Language}
    (hsorted : languages.Pairwise fun k l => k.name < l.name)
    (hfound : found.Pairwise fun k l => Language.nameLe k l) (hperm : found.Perm languages) :
    found = languages := by
  have hnodup : (languages.map Language.name).Nodup :=
    List.pairwise_map.mpr (hsorted.imp String.ne_of_lt)
  -- of two languages in either order the names are the same, and there is one of a name
  refine List.Perm.eq_of_pairwise (fun k l hk hl hkl hlk => ?_) hfound
    (hsorted.imp Text.le_of_lt) hperm
  have hname := String.le_antisymm (Language.nameLe_iff.mp hkl) (Language.nameLe_iff.mp hlk)
  exact List.inj_on_of_nodup_map hnodup (hperm.subset hk) hl hname

/-- **A registry is what its names lead to.** -/
theorem ext_byName (h : ∀ name, r.byName? name = s.byName? name) : r = s := by
  have hmem : ∀ l, l ∈ r.languages ↔ l ∈ s.languages := fun l =>
    ⟨fun hl => (byName?_eq_some_iff.mp ((h l.name).symm.trans (byName?_name hl))).1,
      fun hl => (byName?_eq_some_iff.mp ((h l.name).trans (byName?_name hl))).1⟩
  have hperm : r.languages.Perm s.languages :=
    (List.perm_ext_iff_of_nodup (.of_map _ r.names_nodup) (.of_map _ s.names_nodup)).mpr hmem
  have hlanguages : r.languages = s.languages :=
    eq_of_perm_of_sorted s.sorted (r.sorted.imp Text.le_of_lt) hperm
  cases r
  cases s
  cases hlanguages
  rfl

/-! ## Extensions -/

theorem claims_of_forExtension? (h : r.forExtension? extension = some l) :
    l.profile.Claims extension :=
  (l.profile.handlesExtension_iff extension).mp
    (List.find?_some (p := fun l : Language => l.profile.handlesExtension extension) h)

/-- The language of an extension has the least name of those that claim it. -/
theorem forExtension?_eq_some_iff :
    r.forExtension? extension = some l ↔
      l ∈ r.languages ∧ l.profile.Claims extension ∧
        ∀ k ∈ r.languages, k.profile.Claims extension → l.name ≤ k.name := by
  have hleast : ∀ {l}, r.forExtension? extension = some l →
      ∀ k ∈ r.languages, k.profile.Claims extension → l.name ≤ k.name := by
    intro l h k hk hclaims
    obtain ⟨-, before, behind, hsplit, hnone⟩ := List.find?_eq_some_iff_append.mp h
    have hsorted := r.sorted
    rw [hsplit] at hk hsorted
    -- languages before the one that is found do not claim the extension, and those behind
    -- it have greater names
    rcases List.mem_append.mp hk with hk | hk
    · have hno := hnone k hk
      rw [(k.profile.handlesExtension_iff extension).mpr hclaims] at hno
      cases hno
    · rcases List.mem_cons.mp hk with rfl | hk
      · exact String.le_refl _
      · exact Language.nameLe_iff.mp (Text.le_of_lt
          (List.rel_of_pairwise_cons (List.pairwise_append.mp hsorted).2.1 hk))
  constructor
  · intro h
    exact ⟨List.mem_of_find?_eq_some h, claims_of_forExtension? h, hleast h⟩
  · rintro ⟨hl, hclaims, hle⟩
    have hfound : (r.forExtension? extension).isSome :=
      List.find?_isSome.mpr ⟨l, hl, (Profile.handlesExtension_iff _ _).mpr hclaims⟩
    obtain ⟨k, hk⟩ := Option.isSome_iff_exists.mp hfound
    have hkmem := List.mem_of_find?_eq_some hk
    have hname : k.name = l.name := String.le_antisymm (hleast hk l hl hclaims)
      (hle k hkmem (claims_of_forExtension? hk))
    rw [hk, eq_of_name_eq hkmem hl hname]

theorem forExtension?_eq_none_iff :
    r.forExtension? extension = none ↔ ∀ l ∈ r.languages, ¬l.profile.Claims extension := by
  rw [forExtension?, List.find?_eq_none]
  exact forall₂_congr fun l _ => (Profile.handlesExtension_iff _ _).not

theorem isSome_forExtension?_iff :
    (r.forExtension? extension).isSome = true ↔
      ∃ l ∈ r.languages, l.profile.Claims extension := by
  rw [Option.isSome_iff_ne_none, ne_eq, forExtension?_eq_none_iff]
  simp only [not_forall, not_not, exists_prop]

/-- In whatever order the languages are met, sorting those that claim an extension puts the
language of the extension first. -/
theorem sorted_head?_eq_forExtension? {found : List Language} (h : found.Perm r.languages)
    (extension : String) :
    ((found.filter (·.profile.handlesExtension extension)).mergeSort Language.nameLe).head? =
      r.forExtension? extension := by
  have hsort : (found.filter (·.profile.handlesExtension extension)).mergeSort Language.nameLe =
      r.languages.filter (·.profile.handlesExtension extension) :=
    eq_of_perm_of_sorted (r.sorted.filter _)
      (List.pairwise_mergeSort Language.nameLe_trans Language.nameLe_total _)
      ((List.mergeSort_perm _ _).trans (h.filter _))
  rw [hsort, List.head?_filter, forExtension?]

theorem sorted_names_eq {found : List Language} (h : found.Perm r.languages) :
    (found.map Language.name).mergeSort Text.le = r.names := by
  refine List.Perm.eq_of_pairwise (fun a b _ _ hab hba => ?_)
    (List.pairwise_mergeSort Text.le_trans Text.le_total _)
    (List.pairwise_map.mpr (r.sorted.imp Text.le_of_lt))
    ((List.mergeSort_perm _ _).trans (h.map _))
  exact String.le_antisymm (of_decide_eq_true hab) (of_decide_eq_true hba)

end Registry

end DeclTags
