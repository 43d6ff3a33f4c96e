import DeclTags.Token

set_option autoImplicit false

/-! # Bracketed groups

A group is a run of tokens that begins with an opening bracket and ends with the closing bracket
that balances it, brackets of other kinds not regarded. The one recursion is `groupLengthFrom`. It
also finds the group that a run ends with: read backwards, with the two brackets exchanged, the run
begins with it. -/

namespace DeclTags

/-- A kind of bracket. -/
structure Bracket where
  opening : Char
  closing : Char
  deriving DecidableEq, Repr, Inhabited

namespace Bracket

def parens : Bracket := ⟨'(', ')'⟩

def angles : Bracket := ⟨'<', '>'⟩

def squares : Bracket := ⟨'[', ']'⟩

/-- The bracket as it is met from right to left. -/
def flip (b : Bracket) : Bracket := ⟨b.closing, b.opening⟩

/-- The number of tokens up to the closing bracket that balances the run, `n` tokens and `depth`
open groups being behind already. A closing bracket with no group open ends the search. -/
def groupLengthFrom (b : Bracket) (n depth : Nat) : List Token → Option Nat
  | [] => none
  | t :: run =>
    if t.isPunct b.opening then groupLengthFrom b (n + 1) (depth + 1) run
    else if t.isPunct b.closing then
      if depth = 0 then none
      else if depth = 1 then some (n + 1)
      else groupLengthFrom b (n + 1) (depth - 1) run
    else groupLengthFrom b (n + 1) depth run

/-- The number of tokens up to the closing bracket that balances the run. -/
def groupLength (b : Bracket) (run : List Token) : Option Nat := b.groupLengthFrom 0 0 run

/-- The group that the run begins with, and the tokens after it. -/
def splitGroup? (b : Bracket) (run : List Token) : Option (List Token × List Token) :=
  if run.head?.any (·.isPunct b.opening) then (b.groupLength run).map fun n => run.splitAt n
  else none

/-! ## Lengths -/

theorem groupLengthFrom_bounds {b : Bracket} {n depth m : Nat} {run : List Token}
    (h : b.groupLengthFrom n depth run = some m) : n < m ∧ m ≤ n + run.length := by
  induction run generalizing n depth with
  | nil => simp [groupLengthFrom] at h
  | cons t run ih =>
    rw [groupLengthFrom] at h
    rw [List.length_cons]
    split at h
    · have := ih h
      omega
    · split at h
      · split at h
        · cases h
        · split at h
          · cases h; omega
          · have := ih h
            omega
      · have := ih h
        omega

theorem groupLength_pos {b : Bracket} {n : Nat} {run : List Token}
    (h : b.groupLength run = some n) : 0 < n := (groupLengthFrom_bounds h).1

theorem groupLength_le {b : Bracket} {n : Nat} {run : List Token}
    (h : b.groupLength run = some n) : n ≤ run.length := by
  have := (groupLengthFrom_bounds h).2
  omega

end Bracket

end DeclTags
