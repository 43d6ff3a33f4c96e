import DeclTags.Proofs.Callables
import DeclTags.Proofs.Positions

set_option autoImplicit false

/-! # Searches by position

What is found by position is what is found in the run itself, or in the run backwards: groups by
their brackets (`Positions.openingFrom_spec`, `Positions.closing?_spec`), and with them names with
arguments, constructions, labels, trailing clauses and chains to another constructor. Each search
finds indices of the run, and none of its accesses is out of range.
-/

open scoped List

namespace DeclTags

namespace Bracket

theorem flip_opening (b : Bracket) : b.flip.opening = b.closing := rfl

theorem flip_closing (b : Bracket) : b.flip.closing = b.opening := rfl

end Bracket

namespace Positions

open DeclTags.Bracket

variable {b : Bracket} {run : List Token}

/-! ## Brackets -/

theorem reverse_take_succ {i : Nat} {t : Token} (h : run[i]? = some t) :
    (run.take (i + 1)).reverse = t :: (run.take i).reverse := by
  rw [List.take_add_one, h, Option.toList_some, List.reverse_append, List.reverse_singleton,
    List.singleton_append]

/-- As long as a closing bracket is open behind it, the search by position is the one in the run
backwards, with the brackets exchanged. -/
theorem openingFrom_eq {less : Nat → Checked (Option Nat)}
    (hless : ∀ depth, less (depth + 1) = .ok (some depth)) {n depth : Nat} (hn : n ≤ run.length)
    (hdepth : 0 < depth) (k : Nat) :
    openingFrom b less run depth n =
      .ok ((b.flip.groupLengthFrom k depth (run.take n).reverse).map (n + k - ·)) := by
  induction n generalizing depth k with
  | zero => rfl
  | succ i ih =>
      have ht : run[i]? = some run[i] := List.getElem?_eq_getElem (Nat.lt_of_succ_le hn)
      have hle : i ≤ run.length := Nat.le_of_succ_le hn
      have hcount : i + 1 + k = i + (k + 1) := by omega
      rw [openingFrom, tokenAt_eq ht, reverse_take_succ ht, groupLengthFrom, hcount, flip_opening,
        flip_closing, Checked.ok_bind]
      by_cases hc : run[i].isPunct b.closing = true
      · rw [if_pos hc, if_pos hc, ih hle (Nat.succ_pos _)]
      rw [if_neg hc, if_neg hc]
      by_cases ho : run[i].isPunct b.opening = true
      · rw [if_pos ho, if_pos ho]
        obtain ⟨d, rfl⟩ := Nat.exists_eq_succ_of_ne_zero (Nat.ne_of_gt hdepth)
        rw [hless, Checked.ok_bind, if_neg (Nat.succ_ne_zero d)]
        cases d with
        | zero => simp
        | succ d => simpa using ih hle (Nat.succ_pos d) (k + 1)
      · rw [if_neg ho, if_neg ho, ih hle hdepth]

/-- The tokens of the run from one index up to another are the group. -/
structure GroupAt (b : Bracket) (run : List Token) (opening close : Nat) (group : List Token) :
    Prop where
  lt : opening < close
  close_lt : close < run.length
  isGroup : b.IsGroup group
  eq : group = (run.take (close + 1)).drop opening

namespace GroupAt

variable {opening close : Nat} {group : List Token}

theorem sublist (h : GroupAt b run opening close group) : group <+ run := by
  rw [h.eq]
  exact (List.drop_sublist _ _).trans (List.take_sublist _ _)

/-- Its brackets are the tokens at the two indices, and its inner tokens those between them. -/
theorem ends (h : GroupAt b run opening close group) :
    ∃ o inner c, group = o :: inner ++ [c] ∧ run[opening]? = some o ∧ run[close]? = some c ∧
      (run.take close).drop (opening + 1) = inner := by
  have hlt := h.lt
  have hclose := h.close_lt
  have hopening : opening < (run.take close).length := by
    rw [List.length_take]
    omega
  have hc : run[close]? = some run[close] := List.getElem?_eq_getElem hclose
  refine ⟨run[opening], _, run[close], ?_, List.getElem?_eq_getElem (by omega), hc, rfl⟩
  rw [h.eq, List.take_add_one, hc, Option.toList_some,
    List.drop_append_of_le_length (Nat.le_of_lt hopening), List.drop_eq_getElem_cons hopening,
    List.getElem_take]

end GroupAt

/-- Where the group begins with which the tokens up to an index end. -/
inductive GroupFrom (b : Bracket) (run : List Token) (close : Nat) : Option Nat → Prop where
  | none : b.flip.splitGroup? (run.take (close + 1)).reverse = .none → GroupFrom b run close .none
  | some {opening : Nat} {group : List Token} : GroupAt b run opening close group →
      b.flip.splitGroup? (run.take (close + 1)).reverse =
        .some (group.reverse, (run.take opening).reverse) →
      GroupFrom b run close (.some opening)

/-- The search from a closing bracket finds the beginning of its group, if there is a group. -/
theorem openingFrom_spec {less : Nat → Checked (Option Nat)}
    (hless : ∀ depth, less (depth + 1) = .ok (some depth)) (hb : b.opening ≠ b.closing)
    {close : Nat} {t : Token} (ht : run[close]? = some t) (hc : t.isPunct b.closing = true) :
    ∃ found, openingFrom b less run 0 (close + 1) = .ok found ∧ GroupFrom b run close found := by
  have hlt : close < run.length := (List.getElem?_eq_some_iff.mp ht).1
  have hfrom := openingFrom_eq (b := b) hless (Nat.le_of_lt hlt) Nat.one_pos 1
  rw [openingFrom, tokenAt_eq ht, Checked.ok_bind, if_pos hc, hfrom]
  refine ⟨_, rfl, ?_⟩
  have hback := reverse_take_succ ht
  have hlength : b.flip.groupLength (run.take (close + 1)).reverse =
      b.flip.groupLengthFrom 1 1 (run.take close).reverse := by
    rw [hback, groupLength, groupLengthFrom, flip_opening, if_pos hc]
  have hsplit : b.flip.splitGroup? (run.take (close + 1)).reverse =
      (b.flip.groupLength (run.take (close + 1)).reverse).map fun n =>
        (run.take (close + 1)).reverse.splitAt n := by
    rw [splitGroup?, flip_opening, hback, List.head?_cons, Option.any_some, if_pos hc]
  rw [hlength] at hsplit
  cases hn : b.flip.groupLengthFrom 1 1 (run.take close).reverse with
  | none => exact .none (by rw [hsplit, hn, Option.map_none])
  | some n =>
      have hrest : (run.take (close + 1)).reverse.drop n =
          (run.take (close + 1 - n)).reverse := by
        rw [List.drop_reverse, List.take_take, List.length_take_of_le (by omega),
          Nat.min_eq_left (Nat.sub_le _ _)]
      rw [hn, Option.map_some, List.splitAt_eq, hrest] at hsplit
      have hgroup := ((splitGroup?_eq_some_iff (Ne.symm hb)).mp hsplit).1
      have htwo := hgroup.two_le_length
      rw [List.length_take, List.length_reverse, List.length_take] at htwo
      have hfront : ((run.take (close + 1)).reverse.take n).reverse =
          (run.take (close + 1)).drop (close + 1 - n) := by
        rw [List.take_reverse, List.reverse_reverse, List.length_take_of_le (by omega)]
      show GroupFrom b run close (some (close + 1 - n))
      exact .some ⟨by omega, hlt, hgroup.reverse, hfront⟩ (by rw [hsplit, List.reverse_reverse])

/-- Tokens that do not end with a closing bracket do not end with a group. -/
theorem splitGroup?_eq_none {close : Nat} {t : Token} (ht : run[close]? = some t)
    (hc : ¬t.isPunct b.closing = true) :
    b.flip.splitGroup? (run.take (close + 1)).reverse = none := by
  rw [splitGroup?, reverse_take_succ ht, List.head?_cons, Option.any_some]
  exact if_neg hc

theorem openingParen_spec {close : Nat} {t : Token} (ht : run[close]? = some t)
    (hc : t.isPunct ')' = true) :
    ∃ found, openingParen run close = .ok found ∧ GroupFrom parens run close found :=
  openingFrom_spec (fun _ => rfl) (by decide) ht hc

theorem openingAngle_spec {close : Nat} {t : Token} (ht : run[close]? = some t)
    (hc : t.isPunct '>' = true) :
    ∃ found, openingAngle run close = .ok found ∧ GroupFrom angles run close found :=
  openingFrom_spec (fun _ => rfl) (by decide) ht hc

/-- Where the group ends with which the tokens from an index on begin. -/
inductive GroupTo (b : Bracket) (run : List Token) (opening : Nat) : Option Nat → Prop where
  | none : b.splitGroup? (run.drop opening) = .none → GroupTo b run opening .none
  | some {close : Nat} {group : List Token} : GroupAt b run opening close group →
      b.splitGroup? (run.drop opening) = .some (group, run.drop (close + 1)) →
      GroupTo b run opening (.some close)

theorem closing?_spec (hb : b.opening ≠ b.closing) {opening : Nat} {t : Token}
    (ht : run[opening]? = some t) (ho : t.isPunct b.opening = true) :
    GroupTo b run opening (closing? b run opening) := by
  have hhead : (run.drop opening).head?.any (·.isPunct b.opening) = true := by
    rw [List.head?_drop, ht]
    exact ho
  have hsplit : b.splitGroup? (run.drop opening) =
      (b.groupLength (run.drop opening)).map fun n => (run.drop opening).splitAt n := if_pos hhead
  rw [closing?]
  cases hn : b.groupLength (run.drop opening) with
  | none => exact .none (by rw [hsplit, hn, Option.map_none])
  | some n =>
      rw [hn, Option.map_some, List.splitAt_eq, List.drop_drop] at hsplit
      have hgroup := ((splitGroup?_eq_some_iff hb).mp hsplit).1
      have htwo := hgroup.two_le_length
      have hle := groupLength_le hn
      rw [List.length_take] at htwo
      rw [List.length_drop] at hle
      have hclose : opening + n = opening + n - 1 + 1 := by omega
      have hgroup' : (run.drop opening).take n = (run.take (opening + n - 1 + 1)).drop opening := by
        rw [← hclose, List.drop_take, Nat.add_sub_cancel_left]
      rw [hclose] at hsplit
      show GroupTo b run opening (some (opening + n - 1))
      exact .some ⟨by omega, by omega, hgroup, hgroup'⟩ hsplit

/-! ## Names with arguments -/

/-- The shape that a group has with what stands before it, given backwards. -/
def shapeOf? (group back : List Token) : Option CallShape :=
  (CallShape.withoutTypeArguments? back).bind fun
    | name :: before => if name.isIdentifier then some ⟨before, name, group⟩ else none
    | [] => none

theorem ofBack?_eq (back : List Token) :
    CallShape.ofBack? back =
      (parens.flip.splitGroup? back).bind fun split => shapeOf? split.1.reverse split.2 := rfl

/-- Where the run ends without the type arguments before an index. -/
inductive BeforeArguments (run : List Token) (opening : Nat) : Option Nat → Prop where
  | none : (CallShape.withoutTypeArguments? (run.take opening).reverse).getD [] = [] →
      BeforeArguments run opening .none
  | some {i : Nat} {t : Token} : run[i]? = .some t →
      CallShape.withoutTypeArguments? (run.take opening).reverse =
        .some (t :: (run.take i).reverse) →
      BeforeArguments run opening (.some i)

theorem beforeArguments_spec {opening : Nat} (hpos : 0 < opening) (hle : opening ≤ run.length) :
    ∃ found, beforeArguments run opening = .ok found ∧ BeforeArguments run opening found := by
  obtain ⟨last, rfl⟩ := Nat.exists_eq_succ_of_ne_zero (Nat.ne_of_gt hpos)
  have ht : run[last]? = some run[last] := List.getElem?_eq_getElem hle
  have hback := reverse_take_succ ht
  have hwithout : CallShape.withoutTypeArguments? (run.take (last + 1)).reverse =
      if run[last].isPunct '>' then
        (angles.flip.splitGroup? (run.take (last + 1)).reverse).map (·.2)
      else some (run.take (last + 1)).reverse := by
    rw [CallShape.withoutTypeArguments?, hback]
    rfl
  rw [beforeArguments, difference_eq hpos, Checked.ok_bind, Nat.succ_sub_one, tokenAt_eq ht,
    Checked.ok_bind]
  by_cases hangle : run[last].isPunct '>' = true
  · rw [if_pos hangle] at hwithout ⊢
    obtain ⟨found, hsearch, hfound⟩ := openingAngle_spec ht hangle
    rw [hsearch, Checked.ok_bind]
    cases hfound with
    | none hsplit => exact ⟨none, rfl, .none (by rw [hwithout, hsplit]; rfl)⟩
    | @some angle _ hat hsplit =>
        have hlt := hat.lt
        rw [hsplit, Option.map_some] at hwithout
        cases angle with
        | zero => exact ⟨none, rfl, .none (by rw [hwithout]; rfl)⟩
        | succ i =>
            have hi : run[i]? = some run[i] := List.getElem?_eq_getElem (by omega)
            rw [reverse_take_succ hi] at hwithout
            exact ⟨some i, rfl, .some hi hwithout⟩
  · rw [if_neg hangle] at hwithout ⊢
    exact ⟨some last, rfl, .some ht (by rw [hwithout, hback])⟩

/-- Where the name stands of the shape that a group has with what stands before it. -/
inductive NameAt (run : List Token) (opening : Nat) (group : List Token) :
    Option Nat → Prop where
  | none : shapeOf? group (run.take opening).reverse = .none → NameAt run opening group .none
  | some {i : Nat} {name : Token} : run[i]? = .some name →
      shapeOf? group (run.take opening).reverse = .some ⟨(run.take i).reverse, name, group⟩ →
      NameAt run opening group (.some i)

theorem nameIndex_spec {opening : Nat} (hle : opening ≤ run.length) (group : List Token) :
    ∃ found, nameIndex run opening = .ok found ∧ NameAt run opening group found := by
  cases opening with
  | zero => exact ⟨none, rfl, .none rfl⟩
  | succ last =>
  obtain ⟨found, hbefore, hfound⟩ := beforeArguments_spec (Nat.succ_pos last) hle
  rw [nameIndex, if_neg (Nat.succ_ne_zero last), hbefore, Checked.ok_bind]
  cases hfound with
  | none hwithout =>
      refine ⟨none, rfl, .none ?_⟩
      rw [shapeOf?]
      cases hback : CallShape.withoutTypeArguments? (run.take (last + 1)).reverse with
      | none => rfl
      | some back =>
          rw [hback, Option.getD_some] at hwithout
          rw [hwithout]
          rfl
  | @some i name htoken hwithout =>
      have hshape : shapeOf? group (run.take (last + 1)).reverse =
          if name.isIdentifier then some ⟨(run.take i).reverse, name, group⟩ else none := by
        rw [shapeOf?, hwithout]
        rfl
      refine ⟨if name.isIdentifier then some i else none, ?_, ?_⟩
      · show (tokenAt run i >>= _) = _
        rw [tokenAt_eq htoken]
        rfl
      · by_cases hname : name.isIdentifier = true
        · rw [if_pos hname] at hshape ⊢
          exact .some htoken hshape
        · rw [if_neg hname] at hshape ⊢
          exact .none hshape

/-- The shape has its name at the index `i`, and its group from the index `opening` on up to the
last of the first `n` tokens. -/
structure IsShapeAt (run : List Token) (n i opening : Nat) (shape : CallShape) : Prop where
  name : run[i]? = some shape.name
  before : shape.before = (run.take i).reverse
  group : GroupAt parens run opening (n - 1) shape.group

/-- Where name and group stand with which the first `n` tokens of the run end. -/
inductive CallAt (run : List Token) (n : Nat) : Option (Nat × Nat) → Prop where
  | none : CallShape.ofBack? (run.take n).reverse = .none → CallAt run n .none
  | some {i opening : Nat} {shape : CallShape} :
      CallShape.ofBack? (run.take n).reverse = .some shape → IsShapeAt run n i opening shape →
      CallAt run n (.some (i, opening))

theorem callIndices_spec {n : Nat} (hn : n ≤ run.length) :
    ∃ found, callIndices run n = .ok found ∧ CallAt run n found := by
  cases n with
  | zero => exact ⟨none, rfl, .none rfl⟩
  | succ close =>
  have ht : run[close]? = some run[close] := List.getElem?_eq_getElem hn
  rw [callIndices, if_neg (Nat.succ_ne_zero close), difference_eq (Nat.succ_pos close),
    Checked.ok_bind, Nat.succ_sub_one, tokenAt_eq ht, Checked.ok_bind]
  by_cases hclose : run[close].isPunct ')' = true
  · rw [if_neg (by simp [hclose])]
    obtain ⟨found, hsearch, hfound⟩ := openingParen_spec ht hclose
    rw [hsearch, Checked.ok_bind]
    cases hfound with
    | none hsplit => exact ⟨none, rfl, .none (by rw [ofBack?_eq, hsplit]; rfl)⟩
    | @some opening group hat hsplit =>
        have hle : opening ≤ run.length := Nat.le_of_lt (Nat.lt_trans hat.lt hat.close_lt)
        have hshape : CallShape.ofBack? (run.take (close + 1)).reverse =
            shapeOf? group (run.take opening).reverse := by
          rw [ofBack?_eq, hsplit, Option.bind_some, List.reverse_reverse]
        obtain ⟨found, hindex, hname⟩ := nameIndex_spec hle group
        refine ⟨found.map (·, opening), ?_, ?_⟩
        · show (nameIndex run opening >>= _) = _
          rw [hindex]
          rfl
        · cases hname with
          | none hnone => exact .none (hshape.trans hnone)
          | some hi hsome => exact .some (hshape.trans hsome) ⟨hi, rfl, hat⟩
  · rw [if_pos (by simpa using hclose)]
    refine ⟨none, rfl, .none ?_⟩
    rw [ofBack?_eq, splitGroup?_eq_none ht hclose]
    rfl

/-- Only qualifiers are passed over. -/
theorem qualifiersStart_spec {i : Nat} (hi : i ≤ run.length) :
    ∃ j ≤ i, qualifiersStart run i = .ok j ∧
      withoutQualifiers (run.take i).reverse = (run.take j).reverse := by
  match i with
  | 0 => exact ⟨0, Nat.le_refl 0, rfl, rfl⟩
  | 1 =>
    have ht : run[0]? = some run[0] := List.getElem?_eq_getElem hi
    refine ⟨1, Nat.le_refl 1, rfl, ?_⟩
    rw [reverse_take_succ ht]
    rfl
  | i + 2 =>
    have hpoint : run[i + 1]? = some run[i + 1] := List.getElem?_eq_getElem hi
    have hname : run[i]? = some run[i] := List.getElem?_eq_getElem (Nat.lt_of_succ_lt hi)
    have hback : (run.take (i + 2)).reverse = run[i + 1] :: run[i] :: (run.take i).reverse := by
      rw [reverse_take_succ hpoint, reverse_take_succ hname]
    rw [hback, withoutQualifiers, qualifiersStart, difference_eq (by omega), Checked.ok_bind,
      show i + 2 - 1 = i + 1 from rfl, tokenAt_eq hpoint, Checked.ok_bind,
      difference_eq (by omega), show i + 2 - 2 = i from rfl, Checked.ok_bind, tokenAt_eq hname,
      Checked.ok_bind]
    by_cases hp : run[i + 1].isPunct '.' = true
    · by_cases hn : run[i].isIdentifier = true
      · obtain ⟨j, hj, hstart, hwithout⟩ := qualifiersStart_spec (by omega : i ≤ run.length)
        exact ⟨j, by omega, by rw [if_pos hp, if_pos hn, hstart],
          by rw [if_pos (by simp [hp, hn]), hwithout]⟩
      · exact ⟨i + 2, Nat.le_refl _, by rw [if_pos hp, if_neg hn]; rfl,
          by rw [if_neg (by simp [hn]), hback]⟩
    · exact ⟨i + 2, Nat.le_refl _, by rw [if_neg hp]; rfl, by rw [if_neg (by simp [hp]), hback]⟩

theorem endsWithConstruction_eq (g : Grammar) (run : List Token) :
    endsWithConstruction g run = .ok (DeclTags.endsWithConstruction g run.reverse) := by
  obtain ⟨found, hcall, hfound⟩ := callIndices_spec (Nat.le_refl run.length)
  rw [endsWithConstruction, hcall, Checked.ok_bind, DeclTags.endsWithConstruction]
  cases hfound with
  | none hshape =>
      rw [List.take_length] at hshape
      rw [hshape]
      rfl
  | @some i opening shape hshape hat =>
      rw [List.take_length] at hshape
      have hi : i < run.length := (List.getElem?_eq_some_iff.mp hat.name).1
      obtain ⟨j, hj, hstart, hwithout⟩ := qualifiersStart_spec (Nat.le_of_lt hi)
      rw [hshape, Option.any_some, hat.before, hwithout]
      show (qualifiersStart run i >>= _) = _
      rw [hstart, Checked.ok_bind]
      cases j with
      | zero => rfl
      | succ j =>
          have ht : run[j]? = some run[j] := List.getElem?_eq_getElem (by omega)
          rw [if_neg (Nat.succ_ne_zero j), difference_eq (Nat.succ_pos j), Checked.ok_bind,
            Nat.succ_sub_one, tokenAt_eq ht, reverse_take_succ ht]
          rfl

/-! ## Beginnings -/

/-- Only labels are passed over. -/
theorem labelsEnd_spec (run : List Token) (i : Nat) :
    ∃ j, labelsEnd run i = .ok j ∧ withoutLabels (run.drop i) = run.drop j := by
  fun_induction labelsEnd run i with
  | case1 i h ih =>
      have hlt : i < run.length := Nat.lt_of_succ_lt h
      have hlabel : run[i]? = some run[i] := List.getElem?_eq_getElem hlt
      have hcolon : run[i + 1]? = some run[i + 1] := List.getElem?_eq_getElem h
      rw [List.drop_eq_getElem_cons hlt, List.drop_eq_getElem_cons h, withoutLabels,
        tokenAt_eq hlabel, Checked.ok_bind, tokenAt_eq hcolon, Checked.ok_bind]
      by_cases hl : run[i].isIdentifier = true
      · by_cases hc : run[i + 1].isPunct ':' = true
        · rw [if_pos hl, if_pos hc, if_pos (by simp [hl, hc])]
          exact ih
        · rw [if_pos hl, if_neg hc, if_neg (by simp [hc])]
          exact ⟨i, rfl, by rw [List.drop_eq_getElem_cons hlt, List.drop_eq_getElem_cons h]⟩
      · rw [if_neg hl, if_neg (by simp [hl])]
        exact ⟨i, rfl, by rw [List.drop_eq_getElem_cons hlt, List.drop_eq_getElem_cons h]⟩
  | case2 i h =>
      refine ⟨i, rfl, ?_⟩
      match hrun : run.drop i with
      | [] => rfl
      | [_] => rfl
      | _ :: _ :: _ =>
        have hlen := congrArg List.length hrun
        simp only [List.length_drop, List.length_cons] at hlen
        omega

theorem startsWithControl_eq (g : Grammar) (run : List Token) :
    startsWithControl g run = .ok (DeclTags.startsWithControl g run) := by
  obtain ⟨j, hend, hwithout⟩ := labelsEnd_spec run 0
  rw [List.drop_zero] at hwithout
  rw [startsWithControl, hend, Checked.ok_bind, DeclTags.startsWithControl, hwithout]
  by_cases hj : j < run.length
  · rw [List.drop_eq_getElem_cons hj, List.getElem?_eq_getElem hj, ← List.head?_drop]
    rfl
  · rw [List.drop_of_length_le (Nat.le_of_not_lt hj),
      List.getElem?_eq_none (Nat.le_of_not_lt hj)]
    rfl

/-! ## Tails -/

/-- The tokens before a trailing clause are the first ones of the run. -/
theorem clauseStart_spec (g : Grammar) (run : List Token) :
    ∃ found, clauseStart g run = .ok found ∧
      withoutTrailingClause? g run = found.map (run.take ·) ∧ ∀ n ∈ found, n ≤ run.length := by
  rw [clauseStart, withoutTrailingClause?]
  cases hcut : cutAfterGroup? (startsTrailingClause g) run with
  | none => exact ⟨some run.length, rfl, by simp, by simp⟩
  | some cut =>
      obtain ⟨before, clause⟩ := cut
      have hrun := cutAfterGroup?_append hcut
      have hstarts := cutAfterGroup?_starts hcut
      cases clause with
      | nil => cases hstarts
      | cons keyword body =>
          subst hrun
          have hbody : tokensBetween (before ++ keyword :: body) (before.length + 1)
              (before ++ keyword :: body).length = .ok body := by
            rw [tokensBetween_eq (by simp) (Nat.le_refl _), List.take_length]
            simp
          refine ⟨if !body.isEmpty && body.all isClauseToken then some before.length else none,
            ?_, ?_, ?_⟩
          · show (tokensBetween _ _ _ >>= _) = _
            rw [hbody]
            rfl
          · show (if !body.isEmpty && body.all isClauseToken then some before else none) = _
            split <;> simp
          · split <;> simp

/-- What stands before the colon and the keyword of a chain to another constructor, given
backwards. -/
def beforeColon? (g : Grammar) : List Token → Option (List Token)
  | keyword :: colon :: before =>
    if keyword.isKeyword && g.isConstructorInitializer keyword.text && colon.isPunct ':' then
      some before
    else none
  | _ => none

theorem beforeInitializer?_eq (g : Grammar) (back : List Token) :
    beforeInitializer? g back =
      (parens.flip.splitGroup? back).bind fun split => beforeColon? g split.2 := rfl

theorem colonIndex_spec (g : Grammar) {opening : Nat} (hle : opening ≤ run.length) :
    ∃ found, colonIndex g run opening = .ok found ∧
      beforeColon? g (run.take opening).reverse = found.map (fun n => (run.take n).reverse) ∧
      ∀ n ∈ found, n ≤ run.length := by
  match opening with
  | 0 => exact ⟨none, rfl, rfl, by simp⟩
  | 1 =>
    have hfirst : run[0]? = some run[0] := List.getElem?_eq_getElem hle
    rw [reverse_take_succ hfirst]
    exact ⟨none, rfl, rfl, by simp⟩
  | n + 2 =>
    have hkeyword : run[n + 1]? = some run[n + 1] := List.getElem?_eq_getElem hle
    have hcolon : run[n]? = some run[n] := List.getElem?_eq_getElem (Nat.lt_of_succ_lt hle)
    have hn : n ≤ run.length := by omega
    rw [reverse_take_succ hkeyword, reverse_take_succ hcolon, colonIndex,
      if_neg (by omega : ¬n + 2 < 2), show n + 2 - 1 = n + 1 from rfl, hkeyword]
    refine ⟨if run[n + 1].isKeyword && g.isConstructorInitializer run[n + 1].text &&
      run[n].isPunct ':' then some n else none, ?_, ?_, ?_⟩
    · show (if _ then (tokenAt run n >>= _) else _) = _
      rw [tokenAt_eq hcolon, Checked.ok_bind]
      cases run[n + 1].isKeyword && g.isConstructorInitializer run[n + 1].text <;>
        cases run[n].isPunct ':' <;> rfl
    · show (if _ then some (run.take n).reverse else none) = _
      split <;> rfl
    · split <;> simp [hn]

/-- What stands before a chain to another constructor are the first tokens of the run. -/
theorem initializerStart_spec (g : Grammar) (run : List Token) :
    ∃ found, initializerStart g run = .ok found ∧
      beforeInitializer? g run.reverse = found.map (fun n => (run.take n).reverse) ∧
      ∀ n ∈ found, n ≤ run.length := by
  rw [initializerStart, beforeInitializer?_eq]
  cases hlen : run.length with
  | zero =>
      rw [List.length_eq_zero_iff.mp hlen]
      exact ⟨none, rfl, rfl, by simp⟩
  | succ close =>
  have ht : run[close]? = some run[close] := List.getElem?_eq_getElem (by omega)
  have hback : run.reverse = (run.take (close + 1)).reverse := by rw [← hlen, List.take_length]
  rw [if_neg (Nat.succ_ne_zero close), difference_eq (Nat.succ_pos close), Checked.ok_bind,
    Nat.succ_sub_one, tokenAt_eq ht, Checked.ok_bind, hback]
  by_cases hclose : run[close].isPunct ')' = true
  · rw [if_neg (by simp [hclose])]
    obtain ⟨found, hsearch, hfound⟩ := openingParen_spec ht hclose
    rw [hsearch, Checked.ok_bind]
    cases hfound with
    | none hsplit =>
        rw [hsplit]
        exact ⟨none, rfl, rfl, by simp⟩
    | some hat hsplit =>
        rw [hsplit, Option.bind_some, ← hlen]
        exact colonIndex_spec g (Nat.le_of_lt (Nat.lt_trans hat.lt hat.close_lt))
  · rw [if_pos (by simpa using hclose)]
    rw [splitGroup?_eq_none ht hclose]
    exact ⟨none, rfl, rfl, by simp⟩

end Positions

end DeclTags
