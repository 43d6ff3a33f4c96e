import DeclTags.Text.Layout

set_option autoImplicit false

/-! # Paths

A path is a text; its parts are the names between slashes. Paths are compared step by step, so the
files of a directory stand together. -/

namespace DeclTags.Path

/-- Whether the path begins at the root. -/
def isAbsolute (path : String) : Bool := path.toList.head? = some '/'

def endsWithSlash (path : String) : Bool := path.toList.getLast? = some '/'

/-- The names between the slashes. -/
def names (path : String) : List String :=
  ((Text.splitOn '/' path.toList).filter fun part => !part.isEmpty).map String.ofList

/-- The names of a path without those that lead nowhere. -/
def parts (path : String) : List String := (names path).filter (· ≠ ".")

/-- A step of a path. -/
inductive Component where
  /-- The begin of an absolute path. -/
  | root
  /-- A step that leads nowhere, at the begin of a relative path. -/
  | here
  | up
  | name (text : String)
  deriving DecidableEq, Repr

/-- The step that a name is. -/
def Component.ofName (name : String) : Component := if name = ".." then .up else .name name

/-- The steps of a path. Of those that lead nowhere only one at its begin counts. Paths with the
same steps are the same path. -/
def components (path : String) : List Component :=
  (if isAbsolute path then [.root] else if (names path).head? = some "." then [.here] else []) ++
    (parts path).map Component.ofName

/-- The order of steps: by their kind, and names as texts. -/
def Component.le : Component → Component → Bool
  | .root, _ => true
  | .here, .root => false
  | .here, _ => true
  | .up, .root | .up, .here => false
  | .up, _ => true
  | .name a, .name b => Text.le a b
  | .name _, _ => false

/-- The order of lists of steps: the first difference decides, and a list comes after its
beginnings. -/
def componentsLe : List Component → List Component → Bool
  | [], _ => true
  | _ :: _, [] => false
  | a :: as, b :: bs => if a = b then componentsLe as bs else a.le b

/-- The order of paths. -/
def le (a b : String) : Bool := componentsLe (components a) (components b)

namespace Component

theorem le_total (a b : Component) : a.le b || b.le a := by
  cases a <;> cases b <;> simp [le, Text.le, String.le_total]

theorem le_trans (a b c : Component) (hab : a.le b = true) (hbc : b.le c = true) :
    a.le c = true := by
  cases a <;> cases b <;> cases c <;> simp_all [le, Text.le]
  exact String.le_trans hab hbc

theorem le_antisymm (a b : Component) (hab : a.le b = true) (hba : b.le a = true) : a = b := by
  cases a <;> cases b <;> simp_all [le, Text.le]
  exact String.le_antisymm hab hba

end Component

theorem componentsLe_total (as bs : List Component) :
    componentsLe as bs || componentsLe bs as := by
  induction as generalizing bs with
  | nil => simp [componentsLe]
  | cons a as ih =>
      cases bs with
      | nil => simp [componentsLe]
      | cons b bs =>
          by_cases h : a = b
          · simpa [componentsLe, h] using ih bs
          · simpa [componentsLe, h, Ne.symm h] using a.le_total b

theorem componentsLe_trans (as bs cs : List Component) (hab : componentsLe as bs = true)
    (hbc : componentsLe bs cs = true) : componentsLe as cs = true := by
  induction as generalizing bs cs with
  | nil => simp [componentsLe]
  | cons a as ih =>
      match bs, cs with
      | b :: bs, c :: cs =>
          simp only [componentsLe] at hab hbc ⊢
          by_cases h : a = b
          · subst h
            rw [if_pos rfl] at hab
            by_cases h' : a = c
            · rw [if_pos h'] at hbc ⊢
              exact ih bs cs hab hbc
            · rwa [if_neg h'] at hbc ⊢
          · rw [if_neg h] at hab
            by_cases h' : b = c
            · subst h'
              rwa [if_neg h]
            · rw [if_neg h'] at hbc
              have hne : a ≠ c := by
                rintro rfl
                exact h (a.le_antisymm b hab hbc)
              rw [if_neg hne]
              exact a.le_trans b c hab hbc

/-- Paths of which neither comes after the other are the same path. -/
theorem componentsLe_antisymm (as bs : List Component) (hab : componentsLe as bs = true)
    (hba : componentsLe bs as = true) : as = bs := by
  induction as generalizing bs with
  | nil =>
      cases bs with
      | nil => rfl
      | cons b bs => simp [componentsLe] at hba
  | cons a as ih =>
      cases bs with
      | nil => simp [componentsLe] at hab
      | cons b bs =>
          simp only [componentsLe] at hab hba
          by_cases h : a = b
          · subst h
            rw [if_pos rfl] at hab hba
            rw [ih bs hab hba]
          · rw [if_neg h] at hab
            rw [if_neg (Ne.symm h)] at hba
            exact absurd (a.le_antisymm b hab hba) h

theorem le_total (a b : String) : le a b || le b a := componentsLe_total _ _

theorem le_trans (a b c : String) (hab : le a b = true) (hbc : le b c = true) : le a c = true :=
  componentsLe_trans _ _ _ hab hbc

/-- The path `rest`, taken from the directory `base`. -/
def join (base rest : String) : String :=
  if isAbsolute rest || base.isEmpty then rest
  else if endsWithSlash base then base ++ rest
  else base ++ "/" ++ rest

/-- The name of what the path leads to. -/
def fileName? (path : String) : Option String := (parts path).getLast?.filter (· ≠ "..")

/-- The extension of a file name: what follows its last point, if that is not its first
character. -/
def extensionOf? (name : String) : Option String :=
  let fromEnd := name.toList.reverse
  let extension := fromEnd.takeWhile (· ≠ '.')
  match fromEnd.drop extension.length with
  | _ :: _ :: _ => some (String.ofList extension.reverse)
  | _ => none

def extension? (path : String) : Option String := (fileName? path).bind extensionOf?

/-! ## Relative paths -/

/-- The text without the slashes and empty steps at its begin. -/
def trimFront : List Char → List Char
  | '/' :: cs => trimFront cs
  | '.' :: '/' :: cs => trimFront cs
  | ['.'] => []
  | cs => cs

/-- The text without the slashes and empty steps at its end. -/
def trimBack (cs : List Char) : List Char := (trimFront cs.reverse).reverse

/-- The text after its first `n` parts. -/
def dropParts : Nat → List Char → List Char
  | 0, cs => trimFront cs
  | n + 1, cs => dropParts n ((trimFront cs).dropWhile (· ≠ '/'))

/-- The path without the slashes and empty steps at its end, its begin aside. -/
def trimEnd (path : String) : String :=
  let cs := path.toList
  let begin := if (components path).head?.any fun c => c = .root || c = .here then 1 else 0
  String.ofList (cs.take begin ++ trimBack (cs.drop begin))

/-- The path as seen from the directory `base`; the path itself if it does not lie in there. -/
def relativeTo (base path : String) : String :=
  if (components base).isPrefixOf (components path) then
    if (components base).isEmpty then trimEnd path
    else String.ofList (trimBack (dropParts (parts base).length path.toList))
  else path

end DeclTags.Path
