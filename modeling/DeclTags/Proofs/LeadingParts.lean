import DeclTags.Profile.Builtin
import DeclTags.Proofs.Leadings

set_option autoImplicit false

/-! # The leading part of a run

What stands before a declaration is said of the run alone (`Leading.IsLeadingPart`): attribute lists
at the very beginning, behind them annotations and modifiers, each in its place, and no further one
behind the last. If no attribute list is left open (`ListOpen`) there is exactly one such part, and
it is the one that is taken off (`leading_part_exact`).

How long an annotation is depends on the tokens behind it, so a run that is cut off may have another
leading part than the whole. It has the same one if at least one token is left behind that part and
this token is no `@`: only behind an `@` can the cut remove a parenthesis that is never closed, and
so let an annotation stand where none stood before.
-/

namespace DeclTags

/-! ## Attribute lists that are left open -/

/-- Behind closed attribute lists one begins that is not closed. -/
def ListOpen (run : List Token) : Prop :=
  ∃ lists rest, run = lists ++ rest ∧ AttributeLists lists ∧
    rest.head?.any (·.isPunct '[') = true ∧ ∀ list, list <+: rest → ¬Bracket.squares.IsGroup list

theorem attributesLengthFrom_eq_none_iff {n : Nat} {run : List Token} :
    attributesLengthFrom n run = none ↔ ListOpen run := by
  constructor
  · fun_induction attributesLengthFrom n run with
    | case1 n run ho hk =>
        refine fun _ => ⟨[], run, rfl, .nil, ho, ?_⟩
        rintro list ⟨rest, rfl⟩ hlist
        have hsome := (Bracket.groupLength_eq_some_iff (by decide) ho).mpr
          ⟨list, rest, hlist, rfl, rfl⟩
        rw [hk] at hsome
        cases hsome
    | case2 n run ho k hk ih =>
        intro h
        obtain ⟨group, rest, hgroup, rfl, rfl⟩ :=
          (Bracket.groupLength_eq_some_iff (by decide) ho).mp hk
        rw [List.drop_left] at ih h
        obtain ⟨lists, rest, rfl, hlists, hopen⟩ := ih h
        exact ⟨group ++ lists, rest, by simp, .cons hgroup hlists, hopen⟩
    | case3 =>
        intro h
        cases h
  · rintro ⟨lists, rest, rfl, hlists, ho, hopen⟩
    rw [attributesLengthFrom_append hlists, attributesLengthFrom_eq, if_pos ho]
    cases hk : Bracket.squares.groupLength rest with
    | none => rfl
    | some k =>
        obtain ⟨group, after, hgroup, rfl, -⟩ :=
          (Bracket.groupLength_eq_some_iff (by decide) ho).mp hk
        exact absurd hgroup (hopen group (List.prefix_append group after))

instance (run : List Token) : Decidable (ListOpen run) :=
  decidable_of_iff _ (attributesLengthFrom_eq_none_iff (n := 0))

/-! ## Pieces in a run that is cut off -/

namespace LeadingPiece

variable {g : Grammar} {run rest piece : List Token} {word : Option String} {k : Nat}

theorem NameGoesOn.of_take (h : NameGoesOn (run.take k)) : NameGoesOn run := by
  obtain ⟨point, name, after, htake, hpoint, hname⟩ := h
  refine ⟨point, name, after ++ run.drop k, ?_, hpoint, hname⟩
  rw [← List.cons_append, ← List.cons_append, ← htake, List.take_append_drop]

theorem head?_any_take {c : Char} (hk : 0 < k) :
    (run.take k).head?.any (·.isPunct c) = run.head?.any (·.isPunct c) := by
  rw [List.head?_take, if_neg (by omega)]

/-- What stands in its place stands there also if something is left of the tokens behind it. -/
theorem Stands.take (h : Stands g rest piece word) (hk : 0 < k) :
    Stands g (rest.take k) piece word := by
  cases h with
  | @annotated sign name qualifiers arguments hsign hname hq hmaximal ha =>
      refine .annotated hsign hname hq (fun hgoes => hmaximal ?_) (ha.imp_right ?_)
      · -- with fewer tokens behind it a name goes on only where it goes on with all of them
        rw [← List.take_length_add_append] at hgoes
        exact hgoes.of_take
      · exact fun ⟨hnil, hparen⟩ => ⟨hnil, by rw [head?_any_take hk, hparen]⟩
  | keyword hkeyword hmodifier => exact .keyword hkeyword hmodifier
  | hyphenated hfirst hhyphen hsecond hadjacent hmodifier =>
      exact .hyphenated hfirst hhyphen hsecond hadjacent hmodifier

/-- Whether a modifier stands in a place does not depend on the tokens behind it. -/
theorem Stands.of_not_sign (h : Stands g rest piece word)
    (hsign : piece.head?.any (·.isPunct '@') = false) (rest' : List Token) :
    Stands g rest' piece word := by
  cases h with
  | annotated hsign' =>
      rw [List.head?_cons, Option.any_some, hsign'] at hsign
      cases hsign
  | keyword hkeyword hmodifier => exact .keyword hkeyword hmodifier
  | hyphenated hfirst hhyphen hsecond hadjacent hmodifier =>
      exact .hyphenated hfirst hhyphen hsecond hadjacent hmodifier

end LeadingPiece

namespace Leading

variable {g : Grammar} {run rest pieces : List Token} {words : List String} {l : Leading} {k : Nat}

theorem PiecesBefore.take (h : PiecesBefore g rest pieces words) (hk : 0 < k) :
    PiecesBefore g (rest.take k) pieces words := by
  induction h with
  | nil => exact .nil
  | @cons piece run word words hpiece hmet _ ih =>
      refine .cons ?_ hmet ih
      rw [← List.take_length_add_append]
      exact hpiece.take (by omega)

/-- No attribute list begins where the pieces do, nor where the rest does if there are none. -/
theorem PiecesBefore.no_list (h : PiecesBefore g rest pieces words)
    (hrest : pieces = [] → rest.head?.any (·.isPunct '[') = false) :
    (pieces ++ rest).head?.any (·.isPunct '[') = false := by
  cases h with
  | nil => exact hrest rfl
  | cons hpiece hmet _ =>
      obtain ⟨t, piece, rfl, -⟩ := hpiece.exists_cons
      exact (hpiece.reads hmet).head_isPunct (by decide)

/-! ## Leading parts -/

/-- The first tokens of a run are attribute lists, and behind them annotations and modifiers, each
in its place; the words of the modifiers are kept, each where it occurs first. Behind them stands no
further annotation or modifier, nor an attribute list if there are only those. -/
structure IsLeadingPart (g : Grammar) (run : List Token) (l : Leading) : Prop where
  size_le : l.size ≤ run.length
  parts : ∃ lists pieces words, run.take l.size = lists ++ pieces ∧ AttributeLists lists ∧
    PiecesBefore g (run.drop l.size) pieces words ∧ l.modifiers = words.eraseDups ∧
    (pieces = [] → (run.drop l.size).head?.any (·.isPunct '[') = false)
  no_piece : ∀ piece rest word, run.drop l.size = piece ++ rest →
    ¬LeadingPiece.Stands g rest piece word

/-- A leading part is the one that is taken off. -/
theorem IsLeadingPart.eq (h : IsLeadingPart g run l) : l = ofRun g run := by
  obtain ⟨lists, pieces, words, htake, hlists, hpieces, hmodifiers, hlist⟩ := h.parts
  have hrun : lists ++ (pieces ++ run.drop l.size) = run := by
    rw [← List.append_assoc, ← htake, List.take_append_drop]
  have hsize : l.size = lists.length + pieces.length := by
    rw [← List.length_append, ← htake, List.length_take_of_le h.size_le]
  have hnone := LeadingPiece.atHead?_eq_none_iff.mpr h.no_piece
  calc l = ⟨words.eraseDups, lists.length + pieces.length⟩ := by rw [← hmodifiers, ← hsize]
    _ = ofRun g (lists ++ (pieces ++ run.drop l.size)) :=
        (ofRun_append hlists (hpieces.no_list hlist) hpieces hnone).symm
    _ = ofRun g run := by rw [hrun]

/-- Where no attribute list is left open, what is taken off is a leading part. -/
theorem isLeadingPart_ofRun (h : ¬ListOpen run) : IsLeadingPart g run (ofRun g run) := by
  rcases ofRun_cases g run with ⟨hopen, -⟩ |
    ⟨lists, pieces, rest, words, rfl, hlists, hlist, hpieces, hnone, heq⟩
  · exact absurd (attributesLengthFrom_eq_none_iff.mp hopen) h
  · rw [heq, ← List.length_append, ← List.append_assoc]
    refine ⟨by simp, ?parts, ?no_piece⟩
    case parts =>
      rw [List.take_left, List.drop_left]
      refine ⟨lists, pieces, words, rfl, hlists, hpieces, rfl, fun hnil => ?_⟩
      rwa [hnil, List.nil_append] at hlist
    case no_piece =>
      rw [List.drop_left]
      exact LeadingPiece.atHead?_eq_none_iff.mp hnone

/-- A run that is cut off behind the first token that is left has the same leading part, if that
token is no `@`. -/
theorem IsLeadingPart.take (h : IsLeadingPart g run l) (hk : l.size < k)
    (hsign : (run.drop l.size).head?.any (·.isPunct '@') = false) :
    IsLeadingPart g (run.take k) l := by
  obtain ⟨lists, pieces, words, htake, hlists, hpieces, hmodifiers, hlist⟩ := h.parts
  have hleft : 0 < k - l.size := by omega
  have hdrop : (run.take k).drop l.size = (run.drop l.size).take (k - l.size) := List.drop_take
  refine ⟨?size_le, ?parts, ?no_piece⟩
  case size_le =>
    have hle := h.size_le
    rw [List.length_take]
    omega
  case parts =>
    rw [hdrop, List.take_take, Nat.min_eq_left (by omega), LeadingPiece.head?_any_take hleft]
    exact ⟨lists, pieces, words, htake, hlists, hpieces.take hleft, hmodifiers, hlist⟩
  case no_piece =>
    intro piece rest word hrest hstands
    rw [hdrop] at hrest
    -- a piece that begins with no `@` stands in the whole run as well
    have hhead : piece.head?.any (·.isPunct '@') = false := by
      obtain ⟨t, tail, rfl, -⟩ := hstands.exists_cons
      rwa [← LeadingPiece.head?_any_take hleft, hrest] at hsign
    refine h.no_piece piece (rest ++ (run.drop l.size).drop (k - l.size)) word ?_
      (hstands.of_not_sign hhead _)
    rw [← List.append_assoc, ← hrest, List.take_append_drop]

end Leading

open Leading

/-- **The leading part is exact.** If an attribute list is left open, nothing is taken off a run.
Else what is taken off is the one leading part of the run, and if the token behind it is no `@`, it
is also what is taken off any longer beginning of the run. -/
theorem leading_part_exact (g : Grammar) (run : List Token) :
    (ListOpen run → ofRun g run = ⟨[], 0⟩) ∧
    (¬ListOpen run →
      (∀ l, IsLeadingPart g run l ↔ l = ofRun g run) ∧
      (run[(ofRun g run).size]?.any (·.isPunct '@') = false →
        ∀ k, (ofRun g run).size < k → ofRun g (run.take k) = ofRun g run)) := by
  refine ⟨fun hopen => ?_, fun hclosed => ?_⟩
  · rw [ofRun, attributesLengthFrom_eq_none_iff.mpr hopen]
  · have hpart := isLeadingPart_ofRun (g := g) hclosed
    refine ⟨fun l => ⟨IsLeadingPart.eq, ?_⟩, fun hsign k hk => ?_⟩
    · rintro rfl
      exact hpart
    · rw [← List.head?_drop] at hsign
      exact (hpart.take hk hsign).eq.symm

/-- An attribute list, annotations and modifiers, one of them twice, and a run in which the second
attribute list is left open. -/
theorem leading_part_exact_of_annotated :
    let g := Grammar.ofProfile .java
    let run := (tokensOf g "[A] @B.C(1) public @D non-sealed public void".toList).filter
      (·.isSignificant)
    let cut := (tokensOf g "[A] [B".toList).filter (·.isSignificant)
    ¬ListOpen run ∧ run[17]?.any (·.isPunct '@') = false ∧
      IsLeadingPart g run ⟨["public", "non-sealed"], 17⟩ ∧
      ofRun g (run.take 18) = ⟨["public", "non-sealed"], 17⟩ ∧
      ListOpen cut ∧ ofRun g cut = ⟨[], 0⟩ := by
  intro g run cut
  have hclosed : ¬ListOpen run := by decide +kernel
  have hopen : ListOpen cut := by decide +kernel
  have hpart : ofRun g run = ⟨["public", "non-sealed"], 17⟩ := by decide +kernel
  have hsign : run[17]?.any (·.isPunct '@') = false := by decide +kernel
  obtain ⟨hexact, htake⟩ := (leading_part_exact g run).2 hclosed
  rw [hpart] at hexact htake
  exact ⟨hclosed, hsign, (hexact _).mpr rfl, htake hsign 18 (by decide), hopen,
    (leading_part_exact g cut).1 hopen⟩

/-- Behind an `@` the leading part of a beginning may be longer. -/
example :
    let g := Grammar.ofProfile .java
    let run := (tokensOf g "@A(".toList).filter (·.isSignificant)
    ofRun g run = ⟨[], 0⟩ ∧ ofRun g (run.take 2) = ⟨[], 2⟩ := by
  decide +kernel

end DeclTags
