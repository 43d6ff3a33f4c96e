import DeclTags.Proofs.Searches

set_option autoImplicit false

/-! # Pairs of brackets

Two brackets of a kind are a pair if from the one to the other the brackets of that kind are
balanced for the first time (`Bracket.Encloses`). Which pairs there are in a run does not depend on
the end from which one looks for them: reading on from the opening bracket and reading back from the
closing one find the same pairs, and fail only where there is none (`Bracket.FindsPairs`). This
holds of the groups that are split off a run (`Bracket.openingOf?`, `Bracket.closingOf?`) and of the
searches by position.
-/

namespace DeclTags

namespace Bracket

variable {b : Bracket} {run : List Token} {o c : Nat}

/-- The tokens at the indices are an opening and a closing bracket, and from the first one on the
brackets are balanced behind the second one and at no place before. -/
structure Encloses (b : Bracket) (run : List Token) (o c : Nat) : Prop where
  lt : o < c
  opening : run[o]?.any (·.isPunct b.opening) = true
  closing : run[c]?.any (·.isPunct b.closing) = true
  balanced : b.Balanced ((run.take (c + 1)).drop o)
  not_before : ∀ n, o < n → n ≤ c → ¬b.Balanced ((run.take n).drop o)

/-- The index of the bracket that opens the group with which the tokens up to an index end. -/
def openingOf? (b : Bracket) (run : List Token) (c : Nat) : Option Nat :=
  (b.flip.splitGroup? (run.take (c + 1)).reverse).map fun split => split.2.length

/-- The index of the bracket that closes the group with which the tokens from an index on begin. -/
def closingOf? (b : Bracket) (run : List Token) (o : Nat) : Option Nat :=
  (b.splitGroup? (run.drop o)).map fun split => o + split.1.length - 1

/-! ## Pairs are the ends of groups -/

/-- A group is balanced at its end for the first time. -/
theorem IsGroup.not_balanced_before (hb : b.opening ≠ b.closing) {group before : List Token}
    (h : b.IsGroup group) (hbefore : before <+: group) (hnil : before ≠ [])
    (hne : before ≠ group) : ¬b.Balanced before := by
  obtain ⟨x, inner, y, rfl, hx, hy, hin⟩ := h
  -- what is not the whole group stops before its last bracket
  rcases List.prefix_concat_iff.mp hbefore with heq | hinner
  · exact absurd heq hne
  cases before with
  | nil => exact absurd rfl hnil
  | cons t before =>
      obtain ⟨rfl, hpart⟩ := List.cons_prefix_cons.mp hinner
      intro hbal
      have hcount := hbal.all
      have hnever := hin.never_more before hpart
      obtain ⟨hopen, hclose⟩ := counts_cons_opening hb hx before
      omega

/-- What begins behind the first token and ends before the last one. -/
theorem cons_prefix_cons_concat {x y : Token} {inner before : List Token} (h : before <+: inner) :
    x :: before <+: x :: inner ++ [y] := by
  rw [List.cons_append, List.cons_prefix_cons]
  exact ⟨rfl, h.trans (List.prefix_append _ _)⟩

/-- What is balanced at its end for the first time, between two brackets, is a group. -/
theorem isGroup_of_balanced (hb : b.opening ≠ b.closing) {x y : Token} {inner : List Token}
    (hx : x.isPunct b.opening = true) (hy : y.isPunct b.closing = true)
    (hbal : b.Balanced (x :: inner ++ [y]))
    (hbefore : ∀ before, before <+: inner → ¬b.Balanced (x :: before)) :
    b.IsGroup (x :: inner ++ [y]) := by
  have hnever : ∀ before, before <+: inner → b.closings before ≤ b.openings before := by
    intro before hpart
    have hfront : x :: before <+: x :: inner ++ [y] := cons_prefix_cons_concat hpart
    have hle := hbal.never_more (x :: before) hfront
    obtain ⟨hopen, hclose⟩ := counts_cons_opening hb hx before
    -- one closing bracket more would balance the beginning
    by_contra hmore
    exact hbefore before hpart
      ⟨fun part hp => hbal.never_more part (hp.trans hfront), by omega⟩
  refine ⟨x, inner, y, rfl, hx, hy, fun before hp => by simpa using hnever before hp, ?_⟩
  have hall := hbal.all
  obtain ⟨hopen, hclose⟩ := counts_cons_opening hb hx (inner ++ [y])
  obtain ⟨hlast, hlast'⟩ := counts_cons_closing hb hy []
  rw [List.cons_append, hopen, hclose, openings_append, closings_append, hlast, hlast'] at hall
  simp only [openings_nil, closings_nil] at hall
  omega

/-- What stands between two indices, the brackets included. -/
theorem take_succ_drop {x y : Token} (hx : run[o]? = some x) (hy : run[c]? = some y)
    (hlt : o < c) :
    (run.take (c + 1)).drop o = x :: (run.take c).drop (o + 1) ++ [y] := by
  have hc : c < run.length := (List.getElem?_eq_some_iff.mp hy).1
  have ho : o < (run.take c).length := by
    rw [List.length_take]
    omega
  have hx' : (run.take c)[o] = x := by
    rw [List.getElem_take]
    exact (List.getElem?_eq_some_iff.mp hx).2
  rw [List.take_add_one, hy, Option.toList_some, List.drop_append_of_le_length (Nat.le_of_lt ho),
    List.drop_eq_getElem_cons ho, hx']

/-- What begins at the index `o` and ends before the one at `c` ends at some index. -/
theorem prefix_eq_take_drop {before : List Token} (hc : c ≤ run.length)
    (h : before <+: (run.take c).drop o) : before = (run.take (o + before.length)).drop o := by
  have hle := h.length_le
  rw [List.length_drop, List.length_take_of_le hc] at hle
  have heq := List.prefix_iff_eq_take.mp h
  rw [List.take_drop, List.take_take] at heq
  rcases Nat.eq_zero_or_pos before.length with hzero | hpos
  · rw [List.length_eq_zero_iff.mp hzero, List.length_nil, List.drop_of_length_le]
    exact List.length_take_le ..
  · rwa [Nat.min_eq_left (by omega)] at heq

/-- **A pair are the ends of a group.** -/
theorem encloses_iff (hb : b.opening ≠ b.closing) :
    b.Encloses run o c ↔ c < run.length ∧ b.IsGroup ((run.take (c + 1)).drop o) := by
  constructor
  · intro h
    obtain ⟨x, hx, hopen⟩ := (Option.any_eq_true _ _).mp h.opening
    obtain ⟨y, hy, hclose⟩ := (Option.any_eq_true _ _).mp h.closing
    have hc : c < run.length := (List.getElem?_eq_some_iff.mp hy).1
    have hlt := h.lt
    have hpart := take_succ_drop hx hy hlt
    refine ⟨hc, ?_⟩
    have hbal := h.balanced
    rw [hpart] at hbal ⊢
    refine isGroup_of_balanced hb hopen hclose hbal fun before hbefore => ?_
    -- with the opening bracket it ends at an index before the closing one
    have hle := hbefore.length_le
    rw [List.length_drop, List.length_take_of_le (Nat.le_of_lt hc)] at hle
    have hwhole : x :: before <+: (run.take (c + 1)).drop o := by
      rw [hpart]
      exact cons_prefix_cons_concat hbefore
    rw [prefix_eq_take_drop hc hwhole]
    exact h.not_before _ (by rw [List.length_cons]; omega) (by rw [List.length_cons]; omega)
  · rintro ⟨hc, hgroup⟩
    have hlen := hgroup.two_le_length
    rw [List.length_drop, List.length_take_of_le hc] at hlen
    have hlt : o < c := by omega
    have hpart := take_succ_drop (List.getElem?_eq_getElem (by omega : o < run.length))
      (List.getElem?_eq_getElem hc) hlt
    have hends := hgroup
    obtain ⟨x, inner, y, heq, hx, hy, -⟩ := hends
    obtain ⟨hfirst, hrest⟩ := List.cons.inj (hpart.symm.trans heq)
    have hlast := List.singleton_inj.mp (List.append_inj' hrest rfl).2
    refine ⟨hlt, ?_, ?_, hgroup.balanced hb, fun n hn hle => ?_⟩
    · rwa [List.getElem?_eq_getElem (by omega), Option.any_some, hfirst]
    · rwa [List.getElem?_eq_getElem hc, Option.any_some, hlast]
    · have hpre : (run.take n).drop o <+: (run.take (c + 1)).drop o :=
        (List.take_prefix_take_left (by omega)).drop o
      have hsize : ((run.take n).drop o).length = n - o := by
        rw [List.length_drop, List.length_take_of_le (by omega)]
      refine hgroup.not_balanced_before hb hpre (fun hnil => ?_) fun hwhole => ?_
      · rw [hnil, List.length_nil] at hsize
        omega
      · rw [hwhole, List.length_drop, List.length_take_of_le hc] at hsize
        omega

/-! ## Pairs are found from either end -/

/-- **Reading back from a place** finds the pair that ends there. -/
theorem openingOf?_eq_some_iff (hb : b.opening ≠ b.closing) (hc : c < run.length) :
    b.openingOf? run c = some o ↔ b.Encloses run o c := by
  rw [encloses_iff hb, openingOf?, Option.map_eq_some_iff]
  constructor
  · rintro ⟨⟨back, before⟩, hsplit, rfl⟩
    rw [← List.reverse_reverse back, ← List.reverse_reverse before,
      splitGroup?_reverse_eq_some_iff hb] at hsplit
    obtain ⟨hgroup, heq⟩ := hsplit
    refine ⟨hc, ?_⟩
    rwa [heq, ← List.length_reverse, List.drop_left]
  · rintro ⟨-, hgroup⟩
    have hlen := hgroup.two_le_length
    rw [List.length_drop, List.length_take_of_le hc] at hlen
    have hsplit : run.take (c + 1) = run.take o ++ (run.take (c + 1)).drop o := by
      conv_lhs => rw [← List.take_append_drop o (run.take (c + 1)), List.take_take,
        Nat.min_eq_left (by omega)]
    refine ⟨_, (splitGroup?_reverse_eq_some_iff hb).mpr ⟨hgroup, hsplit⟩, ?_⟩
    rw [List.length_reverse, List.length_take_of_le (by omega)]

/-- **Reading on from a place** finds the pair that begins there. -/
theorem closingOf?_eq_some_iff (hb : b.opening ≠ b.closing) :
    b.closingOf? run o = some c ↔ b.Encloses run o c := by
  rw [encloses_iff hb, closingOf?, Option.map_eq_some_iff]
  constructor
  · rintro ⟨⟨group, rest⟩, hsplit, hc⟩
    obtain rfl : o + group.length - 1 = c := hc
    obtain ⟨hgroup, heq⟩ := (splitGroup?_eq_some_iff hb).mp hsplit
    have hlen := hgroup.two_le_length
    have hall := congrArg List.length heq
    rw [List.length_drop, List.length_append] at hall
    refine ⟨by omega, ?_⟩
    rwa [show o + group.length - 1 + 1 = o + group.length by omega, ← List.take_drop, heq,
      List.take_left]
  · rintro ⟨hc, hgroup⟩
    have hlen := hgroup.two_le_length
    rw [List.length_drop, List.length_take_of_le hc] at hlen
    have hsplit : run.drop o = (run.take (c + 1)).drop o ++ run.drop (c + 1) := by
      conv_lhs => rw [← List.take_append_drop (c + 1) run,
        List.drop_append_of_le_length (by rw [List.length_take_of_le hc]; omega)]
    refine ⟨_, (splitGroup?_eq_some_iff hb).mpr ⟨hgroup, hsplit⟩, ?_⟩
    rw [List.length_drop, List.length_take_of_le hc]
    omega

/-- Two searches for the brackets of a kind, one back from a closing bracket and one on from an
opening bracket, find the same pairs, and fail only where there is none. -/
structure FindsPairs (b : Bracket) (run : List Token) (back : Nat → Checked (Option Nat))
    (forth : Nat → Option Nat) : Prop where
  agree : ∀ o c,
    (run[c]?.any (·.isPunct b.closing) = true ∧ back c = .ok (some o)) ↔
      (run[o]?.any (·.isPunct b.opening) = true ∧ forth o = some c)
  encloses : ∀ o c, run[o]?.any (·.isPunct b.opening) = true → forth o = some c →
    b.Encloses run o c
  back_none : ∀ c, run[c]?.any (·.isPunct b.closing) = true →
    (back c = .ok none ↔ ∀ o, ¬b.Encloses run o c)
  forth_none : ∀ o, run[o]?.any (·.isPunct b.opening) = true →
    (forth o = none ↔ ∀ c, ¬b.Encloses run o c)

/-- Two searches that find just what encloses something. -/
theorem FindsPairs.of_iff {back : Nat → Checked (Option Nat)} {forth : Nat → Option Nat}
    (hback : ∀ c, run[c]?.any (·.isPunct b.closing) = true →
      ∃ found, back c = .ok found ∧ ∀ o, found = some o ↔ b.Encloses run o c)
    (hforth : ∀ o, run[o]?.any (·.isPunct b.opening) = true →
      ∀ c, forth o = some c ↔ b.Encloses run o c) : b.FindsPairs run back forth := by
  have hboth : ∀ o c, (run[c]?.any (·.isPunct b.closing) = true ∧ back c = .ok (some o)) ↔
      b.Encloses run o c := by
    intro o c
    constructor
    · rintro ⟨hclose, hfound⟩
      obtain ⟨found, hback, hiff⟩ := hback c hclose
      rw [hback] at hfound
      exact (hiff o).mp (Except.ok.inj hfound)
    · intro h
      obtain ⟨found, hback, hiff⟩ := hback c h.closing
      exact ⟨h.closing, by rw [hback, (hiff o).mpr h]⟩
  refine ⟨fun o c => ?agree, fun o c ho hfound => (hforth o ho c).mp hfound, fun c hc => ?back,
    fun o ho => ?forth⟩
  case agree =>
    rw [hboth]
    exact ⟨fun h => ⟨h.opening, (hforth o h.opening c).mpr h⟩, fun h => (hforth o h.1 c).mp h.2⟩
  case back =>
    obtain ⟨found, hback, hiff⟩ := hback c hc
    rw [hback, Except.ok.injEq, Option.eq_none_iff_forall_ne_some]
    exact forall_congr' fun o => not_congr (hiff o)
  case forth =>
    rw [Option.eq_none_iff_forall_ne_some]
    exact forall_congr' fun c => not_congr (hforth o ho c)

end Bracket

namespace Positions

open DeclTags.Bracket

variable {b : Bracket} {run : List Token}

theorem GroupFrom.eq {close : Nat} {found : Option Nat} (h : GroupFrom b run close found) :
    b.openingOf? run close = found := by
  cases h with
  | none hsplit => rw [openingOf?, hsplit, Option.map_none]
  | some hat hsplit =>
      have hlt := hat.lt
      have hclose := hat.close_lt
      rw [openingOf?, hsplit, Option.map_some, List.length_reverse,
        List.length_take_of_le (by omega)]

theorem GroupTo.eq {opening : Nat} {found : Option Nat} (h : GroupTo b run opening found) :
    b.closingOf? run opening = found := by
  cases h with
  | none hsplit => rw [closingOf?, hsplit, Option.map_none]
  | some hat hsplit =>
      have hlt := hat.lt
      have hclose := hat.close_lt
      rw [closingOf?, hsplit, Option.map_some, hat.eq, List.length_drop,
        List.length_take_of_le hclose]
      congr 1
      omega

/-- A search by position for the beginnings of groups and the one for their ends find pairs. -/
theorem findsPairs (hb : b.opening ≠ b.closing) {back : Nat → Checked (Option Nat)}
    (hback : ∀ {close t}, run[close]? = some t → t.isPunct b.closing = true →
      ∃ found, back close = .ok found ∧ GroupFrom b run close found) :
    b.FindsPairs run back (closing? b run) := by
  refine .of_iff (fun c hc => ?back) fun o ho c => ?forth
  case back =>
    obtain ⟨t, ht, hclose⟩ := (Option.any_eq_true _ _).mp hc
    obtain ⟨found, hfound, hfrom⟩ := hback ht hclose
    refine ⟨found, hfound, fun o => ?_⟩
    rw [← hfrom.eq]
    exact openingOf?_eq_some_iff hb (List.getElem?_eq_some_iff.mp ht).1
  case forth =>
    obtain ⟨t, ht, hopen⟩ := (Option.any_eq_true _ _).mp ho
    rw [← (closing?_spec hb ht hopen).eq]
    exact closingOf?_eq_some_iff hb

end Positions

open DeclTags.Bracket (parens angles)

/-- **Brackets are matched alike from either end**, by position and in what is split off a run:
reading on from an opening parenthesis or angle bracket and reading back from a closing one find the
pairs between which the brackets of the kind are balanced for the first time. Neither search fails
where there is such a pair, and none is out of range. -/
theorem brackets_matched_alike (run : List Token) :
    parens.FindsPairs run (Positions.openingParen run) (Positions.closing? parens run) ∧
    angles.FindsPairs run (Positions.openingAngle run) (Positions.closing? angles run) ∧
    ∀ b ∈ [parens, angles],
      b.FindsPairs run (fun c => .ok (b.openingOf? run c)) (b.closingOf? run) := by
  refine ⟨Positions.findsPairs (by decide) Positions.openingParen_spec,
    Positions.findsPairs (by decide) Positions.openingAngle_spec, fun b hb => ?_⟩
  have hne : b.opening ≠ b.closing := by
    revert b
    decide
  refine .of_iff (fun c hc => ⟨_, rfl, fun o => ?_⟩) fun o _ c => Bracket.closingOf?_eq_some_iff hne
  obtain ⟨t, ht, -⟩ := (Option.any_eq_true _ _).mp hc
  exact Bracket.openingOf?_eq_some_iff hne (List.getElem?_eq_some_iff.mp ht).1

/-- Brackets of the other kind between them do not matter, and neither do those around them. -/
example :
    let run := tokensOf (.ofProfile { name := "x" }) ")(<(>))<".toList
    Positions.closing? parens run 1 = some 6 ∧ Positions.openingParen run 6 = .ok (some 1) ∧
      Positions.closing? angles run 2 = some 4 ∧ Positions.openingAngle run 4 = .ok (some 2) ∧
      Positions.openingParen run 0 = .ok none ∧ Positions.closing? angles run 7 = none := by
  decide +kernel

end DeclTags
