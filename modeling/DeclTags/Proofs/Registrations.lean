import DeclTags.Proofs.Registries
import Mathlib.Data.List.Induction

set_option autoImplicit false

/-! # The last registration of a name

Whatever is done with a registry that was empty, all of it comes to offering some profiles one after
another: the built-in ones, those of a directory, or a single one. A profile with a fault is
refused, and one without replaces what was registered under its name. So a name leads to the last
valid profile of that name that was offered (`byName?_offerAll`), and the order in which profiles of
different names were offered leaves no trace.
-/

namespace DeclTags

/-! ## What is done with a registry -/

/-- What is done with a registry, looking something up aside. -/
inductive RegistryStep where
  /-- Registers the built-in profiles, and those of the user's directory if there is one. -/
  | start (d : Disk) (cwd : Location) (userDirectory : Option String)
  | register (p : Profile)
  | loadDirectory (d : Disk) (cwd : Location) (path : String)

namespace Registry

/-- The registry behind a step. A profile that is refused leaves it as it was. -/
def after (r : Registry) : RegistryStep → Registry
  | .start d cwd userDirectory => r.start d cwd userDirectory
  | .register p => (r.register p).toOption.getD r
  | .loadDirectory d cwd path => (r.loadDirectory d cwd path).2

/-- The registry behind some steps, from the empty one. -/
def ofSteps (steps : List RegistryStep) : Registry := steps.foldl after {}

/-- The profile in a file, if it can be read as one. -/
def profileIn? (d : Disk) (cwd : Location) (file : String) : Option Profile :=
  (Profile.load d cwd file).toOption

/-- The profiles in the files of a directory, in the order of the paths. -/
def profilesIn (d : Disk) (cwd : Location) (path : String) : List Profile :=
  (profilePaths d cwd path).filterMap (profileIn? d cwd)

end Registry

/-- The profiles that a step would register, in this order. -/
def RegistryStep.offered : RegistryStep → List Profile
  | .start d cwd userDirectory =>
    Profile.builtins ++ userDirectory.elim [] (Registry.profilesIn d cwd)
  | .register p => [p]
  | .loadDirectory d cwd path => Registry.profilesIn d cwd path

/-- The last profile without fault among those of a name. -/
def lastValid? (profiles : List Profile) (name : String) : Option Profile :=
  (profiles.filter fun p => p.Valid ∧ p.name = name).getLast?

theorem lastValid?_concat (profiles : List Profile) (p : Profile) (name : String) :
    lastValid? (profiles ++ [p]) name =
      if p.Valid ∧ p.name = name then some p else lastValid? profiles name := by
  rw [lastValid?, List.filter_append, List.getLast?_append, List.filter_cons]
  by_cases h : p.Valid ∧ p.name = name
  · rw [if_pos (decide_eq_true h), if_pos h]
    rfl
  · rw [if_neg fun hd => h (of_decide_eq_true hd), if_neg h]
    rfl

/-- The last profile without fault that some steps would register under a name. -/
def lastOffered? (steps : List RegistryStep) (name : String) : Option Profile :=
  lastValid? (steps.flatMap RegistryStep.offered) name

/-- The built-in profiles are not refused. -/
theorem Profile.builtins_valid : ∀ p ∈ builtins, p.Valid := by decide +kernel

/-! ## One registration -/

namespace Registry

variable {r : Registry} {p : Profile} {fault : Profile.Fault}

theorem register_of_valid (r : Registry) (h : p.Valid) :
    r.register p = .ok (r.insert (.ofProfile p h)) := by
  have hcompile := Grammar.compile_eq_ok_iff.mpr ⟨h, rfl⟩
  rw [register]
  split
  · next hfault => rw [hcompile] at hfault; cases hfault
  · next g hg =>
    rw [hcompile] at hg
    cases hg
    rfl

theorem register_eq_error_iff : r.register p = .error fault ↔ p.fault? = some fault := by
  have hcompile : Grammar.compile p = .error fault ↔ p.fault? = some fault := by
    rw [Grammar.compile]
    cases p.fault? <;> simp
  rw [register, ← hcompile]
  split
  · next other hother => simp [hother]
  · next g hg => simp [hg]

/-- The registry behind a profile that is offered to it. -/
def offer (r : Registry) (p : Profile) : Registry := (r.register p).toOption.getD r

theorem offer_of_valid (r : Registry) (h : p.Valid) :
    r.offer p = r.insert (.ofProfile p h) := by
  rw [offer, register_of_valid r h]
  rfl

theorem offer_of_not_valid (r : Registry) (h : ¬p.Valid) : r.offer p = r := by
  obtain ⟨fault, hfault⟩ := Option.ne_none_iff_exists'.mp h
  rw [offer, register_eq_error_iff.mpr hfault]
  rfl

/-- A profile that is offered changes what its own name leads to, if it is without fault. -/
theorem byName?_offer (r : Registry) (p : Profile) (name : String) :
    ((r.offer p).byName? name).map Language.profile =
      if p.Valid ∧ p.name = name then some p else (r.byName? name).map Language.profile := by
  by_cases h : p.Valid
  · rw [offer_of_valid r h, byName?_insert, Language.ofProfile_name]
    by_cases hname : p.name = name
    · rw [if_pos hname.symm, if_pos ⟨h, hname⟩]
      rfl
    · rw [if_neg (Ne.symm hname), if_neg fun hboth => hname hboth.2]
  · rw [offer_of_not_valid r h, if_neg fun hboth => h hboth.1]

/-! ## Many registrations -/

/-- The registry behind some profiles that are offered one after another. -/
def offerAll (r : Registry) (profiles : List Profile) : Registry := profiles.foldl offer r

/-- **A name leads to the last valid profile of that name**, or else to what it led to before. -/
theorem byName?_offerAll (r : Registry) (profiles : List Profile) (name : String) :
    ((r.offerAll profiles).byName? name).map Language.profile =
      (lastValid? profiles name).or ((r.byName? name).map Language.profile) := by
  -- from the end, since the last profile of a name hides those before it
  induction profiles using List.reverseRecOn with
  | nil => rfl
  | append_singleton profiles p ih =>
      have hstep : r.offerAll (profiles ++ [p]) = (r.offerAll profiles).offer p :=
        List.foldl_concat ..
      rw [hstep, byName?_offer, ih, lastValid?_concat]
      split <;> rfl

theorem byName?_of_offerAll (profiles : List Profile) (name : String) :
    ((({} : Registry).offerAll profiles).byName? name).map Language.profile =
      lastValid? profiles name := by
  rw [byName?_offerAll]
  exact Option.or_none

/-- Profiles that agree on the last one of each name make the same registry. -/
theorem offerAll_congr {profiles others : List Profile}
    (h : ∀ name, lastValid? others name = lastValid? profiles name) :
    ({} : Registry).offerAll others = ({} : Registry).offerAll profiles := by
  refine ext_byName fun name => ?_
  refine Option.map_injective (fun _ _ => Language.ext_profile) ?_
  rw [byName?_of_offerAll, byName?_of_offerAll, h]

/-! ## Directories -/

theorem profilePaths_sorted (d : Disk) (cwd : Location) (path : String) :
    (profilePaths d cwd path).Pairwise fun a b => Path.le a b := by
  rw [profilePaths]
  split
  · exact .nil
  · exact List.pairwise_mergeSort Path.le_trans Path.le_total _

/-- The paths of the files in a directory whose extension is that of a profile. -/
theorem profilePaths_perm (d : Disk) (cwd : Location) (path : String) :
    (profilePaths d cwd path).Perm
      ((((d.list cwd path).toOption.getD []).map (Path.join path)).filter isProfilePath) := by
  rw [profilePaths]
  cases d.list cwd path with
  | error fault => exact .nil
  | ok names => exact List.mergeSort_perm _ _

theorem isProfilePath_iff (file : String) :
    isProfilePath file = true ↔
      Path.extension? file = some "yaml" ∨ Path.extension? file = some "yml" := by
  simp [isProfilePath]

theorem loadNext_of_none {d : Disk} {cwd : Location} {file : String}
    (h : profileIn? d cwd file = none) (count : Nat) (r : Registry) :
    loadNext d cwd (count, r) file = (count, r) := by
  rw [profileIn?] at h
  rw [loadNext, loadFile?]
  cases hload : Profile.load d cwd file with
  | error fault => rfl
  | ok p => rw [hload] at h; cases h

theorem loadNext_of_some {d : Disk} {cwd : Location} {file : String} {p : Profile}
    (h : profileIn? d cwd file = some p) (count : Nat) (r : Registry) :
    loadNext d cwd (count, r) file = (count + [p].countP (·.Valid), r.offer p) := by
  have hload : Profile.load d cwd file = .ok p := toOption_eq_some_iff.mp h
  rw [loadNext, loadFile?, hload, List.countP_singleton]
  by_cases hvalid : p.Valid
  · rw [offer_of_valid r hvalid, if_pos (decide_eq_true hvalid)]
    simp only [register_of_valid r hvalid]
    rfl
  · obtain ⟨fault, hfault⟩ := Option.ne_none_iff_exists'.mp hvalid
    rw [offer_of_not_valid r hvalid, if_neg (by simpa using hvalid)]
    simp only [register_eq_error_iff.mpr hfault]
    rfl

/-- Files are offered one after another, and those are counted that are not refused. -/
theorem foldl_loadNext (d : Disk) (cwd : Location) (files : List String) (count : Nat)
    (r : Registry) :
    files.foldl (loadNext d cwd) (count, r) =
      (count + (files.filterMap (profileIn? d cwd)).countP (·.Valid),
        r.offerAll (files.filterMap (profileIn? d cwd))) := by
  induction files generalizing count r with
  | nil => rfl
  | cons file files ih =>
      rw [List.foldl_cons]
      cases hload : profileIn? d cwd file with
      | none =>
        rw [loadNext_of_none hload, List.filterMap_cons_none hload]
        exact ih count r
      | some p =>
        rw [loadNext_of_some hload, List.filterMap_cons_some hload, ih]
        refine Prod.ext ?_ rfl
        simp only [List.countP_cons, List.countP_nil]
        omega

/-- Loading a directory is registering the profiles of its files one after another. -/
theorem loadDirectory_eq (d : Disk) (cwd : Location) (path : String) (r : Registry) :
    r.loadDirectory d cwd path =
      ((profilesIn d cwd path).countP (·.Valid), r.offerAll (profilesIn d cwd path)) := by
  rw [loadDirectory, foldl_loadNext, Nat.zero_add]
  rfl

/-! ## Any history -/

/-- A step offers its profiles one after another. -/
theorem after_eq (r : Registry) (step : RegistryStep) :
    r.after step = r.offerAll step.offered := by
  cases step with
  | register p => rfl
  | loadDirectory d cwd path => exact congrArg Prod.snd (loadDirectory_eq d cwd path r)
  | start d cwd userDirectory =>
    -- the files of the user come behind the built-in profiles, and so replace those of their names
    have hbuiltins : r.withBuiltins = r.offerAll Profile.builtins := rfl
    cases userDirectory with
    | none => exact hbuiltins
    | some path =>
      have hload := loadDirectory_eq d cwd path r.withBuiltins
      rw [after, start, hload, hbuiltins]
      exact (List.foldl_append ..).symm

theorem ofSteps_eq (steps : List RegistryStep) :
    ofSteps steps = ({} : Registry).offerAll (steps.flatMap RegistryStep.offered) := by
  induction steps using List.reverseRecOn with
  | nil => rfl
  | append_singleton steps step ih =>
      have hstep : ofSteps (steps ++ [step]) = (ofSteps steps).after step := List.foldl_concat ..
      rw [hstep, after_eq, ih, offerAll, offerAll, ← List.foldl_append, List.flatMap_append,
        List.flatMap_singleton]
      rfl

/-- What is registered is given by a profile for each name. -/
structure Holds (r : Registry) (profileOf : String → Option Profile) : Prop where
  byName : ∀ name, (r.byName? name).map (fun l => (l.profile, l.grammar)) =
    (profileOf name).map fun p => (p, Grammar.ofProfile p)
  names_sorted : r.names.Pairwise (· < ·)
  mem_names : ∀ name, name ∈ r.names ↔ (profileOf name).isSome
  /-- The language of an extension has the least name of those that claim it. -/
  forExtension : ∀ extension p, (r.forExtension? extension).map Language.profile = some p ↔
    profileOf p.name = some p ∧ p.Claims extension ∧
      ∀ q, profileOf q.name = some q → q.Claims extension → p.name ≤ q.name
  forExtension_none : ∀ extension, r.forExtension? extension = none ↔
    ∀ p, profileOf p.name = some p → ¬p.Claims extension
  /-- In whatever order the languages are met, sorting them gives the same answers. -/
  any_order : ∀ found : List Language, found.Perm r.languages →
    (found.map Language.name).mergeSort Text.le = r.names ∧
    ∀ extension, ((found.filter (·.profile.handlesExtension extension)).mergeSort
      Language.nameLe).head? = r.forExtension? extension

/-- A registry holds what its names lead to. -/
theorem holds_of_byName {r : Registry} {profileOf : String → Option Profile}
    (h : ∀ name, (r.byName? name).map Language.profile = profileOf name) : r.Holds profileOf := by
  -- a profile is registered just if its own name leads to it
  have hmem : ∀ p, profileOf p.name = some p ↔ ∃ l ∈ r.languages, l.profile = p := by
    intro p
    rw [← h, Option.map_eq_some_iff]
    constructor
    · rintro ⟨l, hl, rfl⟩
      exact ⟨l, (byName?_eq_some_iff.mp hl).1, rfl⟩
    · rintro ⟨l, hl, rfl⟩
      exact ⟨l, byName?_name hl, rfl⟩
  refine ⟨?byName, List.pairwise_map.mpr r.sorted, ?names, ?forExtension, ?none,
    fun found hfound => ⟨sorted_names_eq hfound, sorted_head?_eq_forExtension? hfound⟩⟩
  case byName =>
    intro name
    rw [← h, Option.map_map]
    congr 1
    funext l
    exact congrArg (Prod.mk l.profile) l.grammar_eq
  case names =>
    intro name
    rw [mem_names_iff, ← h, Option.isSome_map]
  case forExtension =>
    intro extension p
    simp only [hmem]
    rw [Option.map_eq_some_iff]
    constructor
    · rintro ⟨l, hl, rfl⟩
      obtain ⟨hreg, hclaims, hleast⟩ := forExtension?_eq_some_iff.mp hl
      refine ⟨⟨l, hreg, rfl⟩, hclaims, ?_⟩
      rintro q ⟨k, hk, rfl⟩
      exact hleast k hk
    · rintro ⟨⟨l, hl, rfl⟩, hclaims, hleast⟩
      have hleast : ∀ k ∈ r.languages, k.profile.Claims extension → l.name ≤ k.name :=
        fun k hk => hleast k.profile ⟨k, hk, rfl⟩
      exact ⟨l, forExtension?_eq_some_iff.mpr ⟨hl, hclaims, hleast⟩, rfl⟩
  case none =>
    intro extension
    simp only [hmem]
    rw [forExtension?_eq_none_iff]
    constructor
    · rintro hnone p ⟨l, hl, rfl⟩
      exact hnone l hl
    · exact fun hnone l hl => hnone l.profile ⟨l, hl, rfl⟩

end Registry

open Registry

/-- **Whatever is done with a registry, it holds the last valid profile of each name**, be it built
in, from a directory, or registered on its own. A profile with a fault is refused and leaves no
trace. Starting and loading a directory are registering profiles one after another, those of a
directory in the order of the paths of their files; loading counts those that are not refused.
Histories in which the last valid profile of each name is the same lead to the same registry, in
whatever order the names are registered. -/
theorem registry_holds_last (steps : List RegistryStep) :
    (ofSteps steps).Holds (lastOffered? steps) ∧
    (∀ p fault, (ofSteps steps).register p = .error fault ↔ p.fault? = some fault) ∧
    (∀ p later, ¬p.Valid →
      ofSteps (steps ++ .register p :: later) = ofSteps (steps ++ later)) ∧
    (∀ step, ofSteps (steps ++ [step]) = ofSteps (steps ++ step.offered.map .register)) ∧
    (∀ d cwd path,
      ((ofSteps steps).loadDirectory d cwd path).1 = (profilesIn d cwd path).countP (·.Valid) ∧
      (profilePaths d cwd path).Pairwise (fun a b => Path.le a b) ∧
      (profilePaths d cwd path).Perm
        ((((d.list cwd path).toOption.getD []).map (Path.join path)).filter fun file =>
          Path.extension? file = some "yaml" ∨ Path.extension? file = some "yml")) ∧
    ∀ others, (∀ name, lastOffered? others name = lastOffered? steps name) →
      ofSteps others = ofSteps steps := by
  refine ⟨?holds, fun p fault => register_eq_error_iff, ?refused, ?step, ?directory, ?order⟩
  case holds =>
    refine holds_of_byName fun name => ?_
    rw [ofSteps_eq, byName?_of_offerAll]
    rfl
  case refused =>
    intro p later hp
    rw [ofSteps, ofSteps, List.foldl_append, List.foldl_append, List.foldl_cons, after_eq]
    exact congrArg (later.foldl after) (offer_of_not_valid _ hp)
  case step =>
    intro step
    rw [ofSteps, ofSteps, List.foldl_append, List.foldl_append, List.foldl_map]
    exact after_eq _ step
  case directory =>
    intro d cwd path
    refine ⟨by rw [loadDirectory_eq], profilePaths_sorted d cwd path, ?_⟩
    refine (profilePaths_perm d cwd path).trans (.of_eq (List.filter_congr fun file _ => ?_))
    exact Bool.eq_iff_iff.mpr ((isProfilePath_iff file).trans decide_eq_true_iff.symm)
  case order =>
    intro others h
    rw [ofSteps_eq, ofSteps_eq]
    exact offerAll_congr h

/-- A built-in language replaces one of its name, a profile with a fault does not; one of a lesser
name takes an extension over. -/
theorem registry_holds_last_of_java :
    let steps : List RegistryStep :=
      [.register { name := "java", extensions := ["x"] }, .start {} [] none,
        .register { name := "java", maxCandidateTokens := 0 },
        .register { name := "basic", extensions := ["cs"] }]
    ((ofSteps steps).byName? "java").map (fun l => (l.profile, l.grammar)) =
        some (.java, .ofProfile .java) ∧
      (ofSteps steps).names.Pairwise (· < ·) ∧ "basic" ∈ (ofSteps steps).names ∧
      ((ofSteps steps).forExtension? ".CS").map Language.name = some "basic" ∧
      (ofSteps steps).forExtension? "x" = none := by
  intro steps
  have hholds := (registry_holds_last steps).1
  refine ⟨?_, hholds.names_sorted, (hholds.mem_names "basic").mpr (by decide +kernel),
    by decide +kernel, by decide +kernel⟩
  rw [hholds.byName "java", show lastOffered? steps "java" = some .java by decide +kernel]
  rfl

end DeclTags
