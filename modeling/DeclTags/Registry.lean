import DeclTags.Disk
import DeclTags.Grammar
import DeclTags.Profile.Builtin
import DeclTags.Profile.Yaml

set_option autoImplicit false

/-! # Languages

The languages that are known, in the order of their names. Registering a profile replaces the
language of that name; an extension belongs to the first language that claims it. That a language
is made from a profile without fault, and that a registry has one language of a name, is part of
what they are. -/

namespace DeclTags

/-- A profile without fault, and the grammar made from it. -/
structure Language where
  profile : Profile
  grammar : Grammar
  compiled : Grammar.compile profile = .ok grammar
  deriving DecidableEq, Repr

def Language.name (l : Language) : String := l.profile.name

/-- Why a profile cannot be loaded. -/
inductive ProfileError where
  | unreadableFile (path : String) (fault : DiskFault)
  | badText (error : ProfileTextError)
  deriving DecidableEq, Repr

namespace ProfileError

def message : ProfileError → String
  | .unreadableFile path fault => "failed to read profile " ++ path ++ ": " ++ fault.message
  | .badText .unreadable => "failed to parse profile"
  | .badText (.faulty p fault) => p.faultMessage fault

end ProfileError

/-- A language is asked for that is not registered. -/
structure UnknownLanguage where
  name : String
  deriving DecidableEq, Repr

def UnknownLanguage.message (e : UnknownLanguage) : String := "unknown language: " ++ e.name

/-- The profile in the file that a path leads to. -/
def Profile.load (d : Disk) (cwd : Location) (path : String) : Except ProfileError Profile :=
  match d.readText cwd path with
  | .error fault => .error (.unreadableFile path fault)
  | .ok text => (Profile.ofYaml (String.ofList text)).mapError .badText

theorem Language.nil_sorted : ([] : List Language).Pairwise fun k l => k.name < l.name := .nil

structure Registry where
  languages : List Language := []
  /-- In the order of their names, each name once. -/
  sorted : languages.Pairwise fun k l => k.name < l.name := by exact Language.nil_sorted
  deriving DecidableEq, Repr

namespace Registry

/-- Puts a language among others that are in order, in place of one of its name. -/
def insertLanguage (l : Language) : List Language → List Language
  | [] => [l]
  | k :: languages =>
    if l.name = k.name then l :: languages
    else if Text.le l.name k.name then l :: k :: languages
    else k :: insertLanguage l languages

theorem mem_of_mem_insertLanguage {k l : Language} {languages : List Language}
    (h : k ∈ insertLanguage l languages) : k = l ∨ k ∈ languages := by
  induction languages with
  | nil => exact .inl (List.mem_singleton.mp h)
  | cons m languages ih =>
      rw [insertLanguage] at h
      split at h
      · exact (List.mem_cons.mp h).imp_right (List.mem_cons_of_mem m)
      split at h
      · exact List.mem_cons.mp h
      · rcases List.mem_cons.mp h with rfl | h
        · exact .inr List.mem_cons_self
        · exact (ih h).imp_right (List.mem_cons_of_mem m)

theorem insertLanguage_sorted (l : Language) {languages : List Language}
    (h : languages.Pairwise fun k l => k.name < l.name) :
    (insertLanguage l languages).Pairwise fun k l => k.name < l.name := by
  induction languages with
  | nil => exact List.pairwise_singleton _ l
  | cons m languages ih =>
      obtain ⟨hm, hrest⟩ := List.pairwise_cons.mp h
      rw [insertLanguage]
      split
      · next heq => exact List.pairwise_cons.mpr ⟨fun k hk => heq ▸ hm k hk, hrest⟩
      next hne =>
      split
      · next hle =>
        have hlt : l.name < m.name :=
          String.not_le.mp fun hge => hne (String.le_antisymm (of_decide_eq_true hle) hge)
        refine List.pairwise_cons.mpr ⟨fun k hk => ?_, h⟩
        rcases List.mem_cons.mp hk with rfl | hk
        · exact hlt
        · exact String.lt_trans hlt (hm k hk)
      · next hle =>
        have hlt : m.name < l.name := String.not_le.mp fun h => hle (decide_eq_true h)
        refine List.pairwise_cons.mpr ⟨fun k hk => ?_, ih hrest⟩
        rcases mem_of_mem_insertLanguage hk with rfl | hk
        · exact hlt
        · exact hm k hk

/-- The registry with one more language. -/
def insert (r : Registry) (l : Language) : Registry :=
  ⟨insertLanguage l r.languages, insertLanguage_sorted l r.sorted⟩

/-- The registry with the language of a profile; a profile with a fault is refused. -/
def register (r : Registry) (p : Profile) : Except Profile.Fault Registry :=
  match h : Grammar.compile p with
  | .error fault => .error fault
  | .ok g => .ok (r.insert ⟨p, g, h⟩)

def byName? (r : Registry) (name : String) : Option Language :=
  r.languages.find? (·.name == name)

/-- The language of a name; an error if it is not registered. -/
def require (r : Registry) (name : String) : Except UnknownLanguage Language :=
  match r.byName? name with
  | some l => .ok l
  | none => .error ⟨name⟩

/-- The first language that claims an extension, given with or without its point. -/
def forExtension? (r : Registry) (extension : String) : Option Language :=
  r.languages.find? (·.profile.handlesExtension extension)

def names (r : Registry) : List String := r.languages.map Language.name

/-- Registers the profile in a file, if it is readable and without fault. -/
def loadFile? (d : Disk) (cwd : Location) (path : String) (r : Registry) : Option Registry :=
  match Profile.load d cwd path with
  | .ok p => (r.register p).toOption
  | .error _ => none

/-- Whether a file may hold a profile, by the extension of its path. -/
def isProfilePath (path : String) : Bool :=
  ["yaml", "yml"].any fun extension => Path.extension? path = some extension

/-- The paths of the files in a directory that may hold profiles, in order; none if the directory
cannot be read. -/
def profilePaths (d : Disk) (cwd : Location) (path : String) : List String :=
  match d.list cwd path with
  | .error _ => []
  | .ok names => ((names.map (Path.join path)).filter isProfilePath).mergeSort Path.le

/-- Registers the profile in one more file, and counts it. A file that gives no profile is passed
over. -/
def loadNext (d : Disk) (cwd : Location) : Nat × Registry → String → Nat × Registry
  | (count, r), file =>
    match r.loadFile? d cwd file with
    | some r => (count + 1, r)
    | none => (count, r)

/-- Registers the profiles in a directory, in the order of their paths, and counts them. -/
def loadDirectory (d : Disk) (cwd : Location) (path : String) (r : Registry) : Nat × Registry :=
  (profilePaths d cwd path).foldl (loadNext d cwd) (0, r)

/-- Registers the built-in profiles, those without fault. -/
def withBuiltins (r : Registry) : Registry :=
  Profile.builtins.foldl (fun r p => (r.register p).toOption.getD r) r

/-- Registers the built-in profiles, and then those of the user's directory, if there is one. -/
def start (d : Disk) (cwd : Location) (userDirectory : Option String) (r : Registry) :
    Registry :=
  match userDirectory with
  | some path => (r.withBuiltins.loadDirectory d cwd path).2
  | none => r.withBuiltins

end Registry

end DeclTags
