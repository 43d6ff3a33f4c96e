import DeclTags.Yaml.Gap

set_option autoImplicit false

/-! # Places in a YAML text

What is still to be read of a text goes along with the place where it begins, since both the line
and the column decide what a character means. -/

namespace DeclTags.Yaml

/-- A place in the text: the bytes before it, and its line and column, from 0. Columns count
characters. -/
structure Place where
  offset : Nat := 0
  line : Nat := 0
  column : Nat := 0
  deriving DecidableEq, Repr, Inhabited

/-- The place after one more character. -/
def Place.step (p : Place) (c : Char) : Place :=
  if isBreak c then ⟨p.offset + c.utf8Size, p.line + 1, 0⟩
  else ⟨p.offset + c.utf8Size, p.line, p.column + 1⟩

/-- The text from a place on. -/
structure Input where
  place : Place := {}
  rest : List Char
  deriving DecidableEq, Repr, Inhabited

namespace Input

/-- The input behind `n` characters. -/
def skip (n : Nat) (i : Input) : Input :=
  match n, i with
  | 0, i => i
  | _ + 1, ⟨p, []⟩ => ⟨p, []⟩
  | n + 1, ⟨p, c :: cs⟩ => skip n ⟨p.step c, cs⟩

/-- The input behind the characters of class `q` at the head of the text, which begins at `p`. -/
def afterClass (q : Char → Bool) (p : Place) : List Char → Input
  | [] => ⟨p, []⟩
  | c :: cs => if q c then afterClass q (p.step c) cs else ⟨p, c :: cs⟩

/-- The input behind the characters of class `q` at its head. -/
def skipWhile (q : Char → Bool) (i : Input) : Input := afterClass q i.place i.rest

theorem length_skip_le (n : Nat) (i : Input) : (i.skip n).rest.length ≤ i.rest.length - n := by
  induction n generalizing i with
  | zero => simp [skip]
  | succ n ih =>
    obtain ⟨p, cs⟩ := i
    cases cs with
    | nil => simp [skip]
    | cons c cs =>
      have := ih ⟨p.step c, cs⟩
      simp only [skip, List.length_cons] at this ⊢
      omega

theorem length_afterClass_le (q : Char → Bool) (p : Place) (cs : List Char) :
    (afterClass q p cs).rest.length ≤ cs.length := by
  induction cs generalizing p with
  | nil => simp [afterClass]
  | cons c cs ih =>
    rw [afterClass]
    split
    · have := ih (p.step c)
      rw [List.length_cons]
      omega
    · simp

end Input

end DeclTags.Yaml
