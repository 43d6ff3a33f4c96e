import DeclTags.Proofs.Feed
import DeclTags.Candidate.Bracket
import Mathlib.Data.List.Infix

set_option autoImplicit false

/-! # Groups

The brackets of one kind in a run of tokens, read as a bracket word: `Bracket.Balanced` says that
they match, by counting them in every beginning of the run. A group is an opening bracket, balanced
tokens and a closing bracket (`Bracket.IsGroup`).

The one recursion that looks for groups finds exactly them (`Bracket.splitGroup?_eq_some_iff`), at
the beginning of a run and, with the brackets flipped, at its end
(`Bracket.splitGroup?_reverse_eq_some_iff`).
-/

namespace DeclTags

/-- A place in a run with one token more is that token's place or one before it. -/
theorem concat_eq_append_cons_iff {u v w : List Token} {t x : Token} :
    u ++ [t] = v ++ x :: w ↔
      (u = v ∧ t = x ∧ w = []) ∨ ∃ w', w = w' ++ [t] ∧ u = v ++ x :: w' := by
  constructor
  · intro h
    rcases List.eq_nil_or_concat' w with rfl | ⟨w, last, rfl⟩
    · obtain ⟨rfl, heq⟩ := List.append_inj' h rfl
      exact .inl ⟨rfl, List.singleton_inj.mp heq, rfl⟩
    · rw [← List.cons_append, ← List.append_assoc] at h
      obtain ⟨rfl, heq⟩ := List.append_inj' h rfl
      exact .inr ⟨w, by rw [List.singleton_inj.mp heq], rfl⟩
  · rintro (⟨rfl, rfl, rfl⟩ | ⟨w, rfl, rfl⟩)
    · rfl
    · simp

namespace Bracket

variable {b : Bracket} {d : Nat} {t : Token} {run : List Token}

/-! ## Bracket words -/

/-- The number of opening brackets. -/
def openings (b : Bracket) (run : List Token) : Nat := run.countP (·.isPunct b.opening)

/-- The number of closing brackets. -/
def closings (b : Bracket) (run : List Token) : Nat := run.countP (·.isPunct b.closing)

/-- At no place of the run more brackets are closed than it opens there and `d` that are open before
it. -/
def NeverMore (b : Bracket) (d : Nat) (run : List Token) : Prop :=
  ∀ before, before <+: run → b.closings before ≤ d + b.openings before

/-- The run closes `d` brackets that are open before it and those that it opens itself, and at no
place more than are open there. -/
structure Closes (b : Bracket) (d : Nat) (run : List Token) : Prop where
  never_more : b.NeverMore d run
  all : b.closings run = d + b.openings run

/-- The brackets of the kind match. -/
def Balanced (b : Bracket) (run : List Token) : Prop := b.Closes 0 run

@[simp] theorem openings_nil : b.openings [] = 0 := rfl

@[simp] theorem closings_nil : b.closings [] = 0 := rfl

@[simp] theorem openings_append (u v : List Token) :
    b.openings (u ++ v) = b.openings u + b.openings v := List.countP_append

@[simp] theorem closings_append (u v : List Token) :
    b.closings (u ++ v) = b.closings u + b.closings v := List.countP_append

@[simp] theorem openings_reverse (run : List Token) : b.openings run.reverse = b.openings run :=
  List.countP_reverse

@[simp] theorem closings_reverse (run : List Token) : b.closings run.reverse = b.closings run :=
  List.countP_reverse

@[simp] theorem openings_flip (run : List Token) : b.flip.openings run = b.closings run := rfl

@[simp] theorem closings_flip (run : List Token) : b.flip.closings run = b.openings run := rfl

@[simp] theorem flip_flip : b.flip.flip = b := rfl

theorem openings_cons (t : Token) (run : List Token) :
    b.openings (t :: run) = b.openings run + if t.isPunct b.opening then 1 else 0 :=
  List.countP_cons

theorem closings_cons (t : Token) (run : List Token) :
    b.closings (t :: run) = b.closings run + if t.isPunct b.closing then 1 else 0 :=
  List.countP_cons

/-! ## One more token in front -/

theorem counts_cons_opening (hb : b.opening ≠ b.closing) (ht : t.isPunct b.opening = true)
    (run : List Token) :
    b.openings (t :: run) = b.openings run + 1 ∧ b.closings (t :: run) = b.closings run := by
  simp [openings_cons, closings_cons, ht, Token.not_isPunct_of_ne ht hb]

theorem counts_cons_closing (hb : b.opening ≠ b.closing) (ht : t.isPunct b.closing = true)
    (run : List Token) :
    b.openings (t :: run) = b.openings run ∧ b.closings (t :: run) = b.closings run + 1 := by
  simp [openings_cons, closings_cons, ht, Token.not_isPunct_of_ne ht hb.symm]

theorem counts_cons_other (ho : t.isPunct b.opening = false) (hc : t.isPunct b.closing = false)
    (run : List Token) :
    b.openings (t :: run) = b.openings run ∧ b.closings (t :: run) = b.closings run := by
  simp [openings_cons, closings_cons, ho, hc]

theorem NeverMore.nil (b : Bracket) (d : Nat) : b.NeverMore d [] := fun before h => by
  simp [List.prefix_nil.mp h]

/-- One more token in front is one more token in front of each beginning. -/
theorem neverMore_cons_iff :
    b.NeverMore d (t :: run) ↔
      ∀ before, before <+: run → b.closings (t :: before) ≤ d + b.openings (t :: before) := by
  constructor
  · exact fun h before hb => h _ ((List.prefix_cons_inj t).mpr hb)
  · intro h before hb
    cases before with
    | nil => simp
    | cons u before =>
        obtain ⟨rfl, hbefore⟩ := List.cons_prefix_cons.mp hb
        exact h before hbefore

theorem neverMore_cons_opening (hb : b.opening ≠ b.closing) (ht : t.isPunct b.opening = true) :
    b.NeverMore d (t :: run) ↔ b.NeverMore (d + 1) run := by
  rw [neverMore_cons_iff]
  refine forall₂_congr fun before _ => ?_
  obtain ⟨ho, hc⟩ := counts_cons_opening hb ht before
  omega

theorem neverMore_cons_closing (hb : b.opening ≠ b.closing) (ht : t.isPunct b.closing = true) :
    b.NeverMore (d + 1) (t :: run) ↔ b.NeverMore d run := by
  rw [neverMore_cons_iff]
  refine forall₂_congr fun before _ => ?_
  obtain ⟨ho, hc⟩ := counts_cons_closing hb ht before
  omega

/-- With no bracket open none can be closed. -/
theorem not_neverMore_zero_cons (hb : b.opening ≠ b.closing) (ht : t.isPunct b.closing = true) :
    ¬b.NeverMore 0 (t :: run) := by
  intro h
  have hle := neverMore_cons_iff.mp h [] List.nil_prefix
  obtain ⟨ho, hc⟩ := counts_cons_closing hb ht []
  simp [ho, hc] at hle

theorem neverMore_cons_other (ho : t.isPunct b.opening = false)
    (hc : t.isPunct b.closing = false) : b.NeverMore d (t :: run) ↔ b.NeverMore d run := by
  rw [neverMore_cons_iff]
  refine forall₂_congr fun before _ => ?_
  obtain ⟨ho, hc⟩ := counts_cons_other ho hc before
  omega

theorem closes_iff : b.Closes d run ↔ b.NeverMore d run ∧ b.closings run = d + b.openings run :=
  ⟨fun h => ⟨h.never_more, h.all⟩, fun h => ⟨h.1, h.2⟩⟩

instance : Decidable (b.NeverMore d run) :=
  decidable_of_iff (∀ before ∈ run.inits, b.closings before ≤ d + b.openings before)
    (by simp [NeverMore, List.mem_inits])

instance : Decidable (b.Closes d run) := decidable_of_iff _ closes_iff.symm

instance : Decidable (b.Balanced run) := inferInstanceAs (Decidable (b.Closes 0 run))

theorem closes_nil_iff : b.Closes d [] ↔ d = 0 := by
  simp [closes_iff, NeverMore.nil, eq_comm]

theorem closes_cons_opening (hb : b.opening ≠ b.closing) (ht : t.isPunct b.opening = true) :
    b.Closes d (t :: run) ↔ b.Closes (d + 1) run := by
  obtain ⟨ho, hc⟩ := counts_cons_opening hb ht run
  rw [closes_iff, closes_iff, neverMore_cons_opening hb ht]
  refine and_congr_right fun _ => ?_
  omega

theorem closes_cons_closing (hb : b.opening ≠ b.closing) (ht : t.isPunct b.closing = true) :
    b.Closes (d + 1) (t :: run) ↔ b.Closes d run := by
  obtain ⟨ho, hc⟩ := counts_cons_closing hb ht run
  rw [closes_iff, closes_iff, neverMore_cons_closing hb ht]
  refine and_congr_right fun _ => ?_
  omega

theorem not_closes_zero_cons (hb : b.opening ≠ b.closing) (ht : t.isPunct b.closing = true) :
    ¬b.Closes 0 (t :: run) := fun h => not_neverMore_zero_cons hb ht h.never_more

theorem closes_cons_other (ho : t.isPunct b.opening = false) (hc : t.isPunct b.closing = false) :
    b.Closes d (t :: run) ↔ b.Closes d run := by
  obtain ⟨hopen, hclose⟩ := counts_cons_other ho hc run
  rw [closes_iff, closes_iff, neverMore_cons_other ho hc, hopen, hclose]

/-! ## Runs behind each other and backwards -/

theorem Closes.append {e : Nat} {u v : List Token} (hu : b.Closes d u) (hv : b.Closes e v) :
    b.Closes (d + e) (u ++ v) := by
  have hall := hu.all
  refine ⟨fun before hb => ?_, ?_⟩
  · -- a beginning of `u ++ v` is one of `u`, or `u` with one of `v`
    rcases List.prefix_or_prefix_of_prefix hb (List.prefix_append u v) with hb' | ⟨mid, rfl⟩
    · have := hu.never_more before hb'
      omega
    · have := hv.never_more mid ((List.prefix_append_right_inj u).mp hb)
      rw [closings_append, openings_append]
      omega
  · have := hv.all
    rw [closings_append, openings_append]
    omega

theorem Balanced.nil (b : Bracket) : b.Balanced [] := closes_nil_iff.mpr rfl

theorem Balanced.append {u v : List Token} (hu : b.Balanced u) (hv : b.Balanced v) :
    b.Balanced (u ++ v) := Closes.append hu hv

/-- What is balanced is balanced backwards. -/
theorem Balanced.reverse (h : b.Balanced run) : b.flip.Balanced run.reverse := by
  have hall := h.all
  refine ⟨fun before hb => ?_, ?_⟩
  · -- what is left of the run before a part at its end
    obtain ⟨after, hafter⟩ := hb
    have hrun : run = after.reverse ++ before.reverse := by
      rw [← List.reverse_append, hafter, List.reverse_reverse]
    have hle := h.never_more after.reverse ⟨before.reverse, hrun.symm⟩
    rw [hrun] at hall
    simp only [closings_append, openings_append, closings_reverse, openings_reverse] at hall hle
    rw [closings_flip, openings_flip]
    omega
  · rw [closings_flip, openings_flip, closings_reverse, openings_reverse]
    omega

/-! ## Groups -/

/-- An opening bracket, balanced tokens and a closing bracket. -/
def IsGroup (b : Bracket) (group : List Token) : Prop :=
  ∃ o inner c, group = o :: inner ++ [c] ∧ o.isPunct b.opening = true ∧
    c.isPunct b.closing = true ∧ b.Balanced inner

theorem IsGroup.balanced (hb : b.opening ≠ b.closing) {group : List Token} (h : b.IsGroup group) :
    b.Balanced group := by
  obtain ⟨o, inner, c, rfl, ho, hc, hi⟩ := h
  have hlast : b.Closes 1 [c] := (closes_cons_closing hb hc).mpr (Balanced.nil b)
  rw [List.cons_append]
  exact (closes_cons_opening hb ho).mpr (Nat.zero_add 1 ▸ Closes.append hi hlast)

theorem IsGroup.reverse {group : List Token} (h : b.IsGroup group) :
    b.flip.IsGroup group.reverse := by
  obtain ⟨o, inner, c, rfl, ho, hc, hi⟩ := h
  exact ⟨c, inner.reverse, o, by simp, hc, ho, hi.reverse⟩

theorem IsGroup.two_le_length {group : List Token} (h : b.IsGroup group) : 2 ≤ group.length := by
  obtain ⟨o, inner, c, rfl, -⟩ := h
  simp

theorem isGroup_reverse_iff {group : List Token} :
    b.flip.IsGroup group.reverse ↔ b.IsGroup group :=
  ⟨fun h => by simpa using h.reverse, IsGroup.reverse⟩

/-- The run has a closing bracket, `n` tokens from its beginning, before which it closes `d`
brackets. -/
def ClosesAt (b : Bracket) (d n : Nat) (run : List Token) : Prop :=
  ∃ inner c rest, run = inner ++ c :: rest ∧ c.isPunct b.closing = true ∧ b.Closes d inner ∧
    n = inner.length + 1

theorem not_closesAt_nil {n : Nat} : ¬b.ClosesAt d n [] := by
  rintro ⟨inner, c, rest, hrun, -⟩
  cases inner <;> cases hrun

/-- A closing bracket with none open before it is the one looked for. -/
theorem closesAt_zero_cons (hb : b.opening ≠ b.closing) (hc : t.isPunct b.closing = true)
    {n : Nat} : b.ClosesAt 0 n (t :: run) ↔ n = 1 := by
  constructor
  · rintro ⟨inner, c, rest, hrun, -, hin, rfl⟩
    cases inner with
    | nil => rfl
    | cons u inner =>
        obtain ⟨rfl, -⟩ := List.cons.inj hrun
        exact absurd hin (not_closes_zero_cons hb hc)
  · rintro rfl
    exact ⟨[], t, run, rfl, hc, Balanced.nil b, rfl⟩

/-- Any other token is passed over. -/
theorem closesAt_cons {e n : Nat} (hstep : ∀ run, b.Closes d (t :: run) ↔ b.Closes e run)
    (hskip : t.isPunct b.closing = true → d ≠ 0) :
    b.ClosesAt d n (t :: run) ↔ ∃ k, b.ClosesAt e k run ∧ n = k + 1 := by
  constructor
  · rintro ⟨inner, c, rest, hrun, hc, hin, rfl⟩
    cases inner with
    | nil =>
        obtain ⟨rfl, -⟩ := List.cons.inj hrun
        exact absurd (closes_nil_iff.mp hin) (hskip hc)
    | cons u inner =>
        obtain ⟨rfl, rfl⟩ := List.cons.inj hrun
        exact ⟨_, ⟨inner, c, rest, rfl, hc, (hstep inner).mp hin, rfl⟩, rfl⟩
  · rintro ⟨k, ⟨inner, c, rest, rfl, hc, hin, rfl⟩, rfl⟩
    exact ⟨t :: inner, c, rest, rfl, hc, (hstep inner).mpr hin, rfl⟩

/-- The search for the end of `d + 1` open groups stops at the closing bracket that ends the last of
them. -/
theorem groupLengthFrom_eq_some_iff (hb : b.opening ≠ b.closing) {n m : Nat} :
    b.groupLengthFrom n (d + 1) run = some m ↔ ∃ k, b.ClosesAt d k run ∧ m = n + k := by
  induction run generalizing n d with
  | nil => simp [groupLengthFrom, not_closesAt_nil]
  | cons t run ih =>
      -- what is passed over counts as one token more
      have hshift : ∀ e, (∃ k, b.ClosesAt e k run ∧ m = n + 1 + k) ↔
          ∃ k, (∃ j, b.ClosesAt e j run ∧ k = j + 1) ∧ m = n + k := by
        intro e
        constructor
        · rintro ⟨k, hk, rfl⟩
          exact ⟨k + 1, ⟨k, hk, rfl⟩, by omega⟩
        · rintro ⟨_, ⟨k, hk, rfl⟩, rfl⟩
          exact ⟨k, hk, by omega⟩
      rw [groupLengthFrom]
      by_cases ho : t.isPunct b.opening = true
      · have hc := Token.not_isPunct_of_ne ho hb
        simp only [if_pos ho, ih, hshift,
          closesAt_cons (fun _ => closes_cons_opening hb ho) (by simp [hc])]
      · rw [if_neg ho]
        rw [Bool.not_eq_true] at ho
        by_cases hc : t.isPunct b.closing = true
        · rw [if_pos hc, if_neg (Nat.succ_ne_zero d)]
          cases d with
          | zero => simp [closesAt_zero_cons hb hc, eq_comm]
          | succ d =>
              simp only [if_neg (show d + 1 + 1 ≠ 1 by omega), Nat.add_sub_cancel, ih, hshift,
                closesAt_cons (fun _ => closes_cons_closing hb hc) (by simp)]
        · rw [if_neg hc]
          rw [Bool.not_eq_true] at hc
          simp only [ih, hshift,
            closesAt_cons (fun _ => closes_cons_other ho hc) (by simp [hc])]

theorem IsGroup.head?_any {group : List Token} (h : b.IsGroup group) (rest : List Token) :
    (group ++ rest).head?.any (·.isPunct b.opening) = true := by
  obtain ⟨o, inner, c, rfl, ho, -⟩ := h
  simpa using ho

/-- The length found is that of a group. -/
theorem groupLength_eq_some_iff (hb : b.opening ≠ b.closing)
    (ho : run.head?.any (·.isPunct b.opening) = true) {n : Nat} :
    b.groupLength run = some n ↔
      ∃ group rest, b.IsGroup group ∧ run = group ++ rest ∧ n = group.length := by
  cases run with
  | nil => cases ho
  | cons t run =>
      rw [List.head?_cons, Option.any_some] at ho
      rw [groupLength, groupLengthFrom, if_pos ho, groupLengthFrom_eq_some_iff hb]
      constructor
      · rintro ⟨k, ⟨inner, c, rest, rfl, hc, hin, rfl⟩, rfl⟩
        refine ⟨t :: inner ++ [c], rest, ⟨t, inner, c, rfl, ho, hc, hin⟩, by simp, ?_⟩
        rw [List.length_append, List.length_cons, List.length_singleton]
        omega
      · rintro ⟨group, rest, ⟨o, inner, c, rfl, -, hc, hin⟩, hrun, rfl⟩
        refine ⟨inner.length + 1, ⟨inner, c, rest, ?_, hc, hin, rfl⟩, ?_⟩
        · simpa using (List.cons.inj hrun).2
        · rw [List.length_append, List.length_cons, List.length_singleton]
          omega

/-- **A run is split exactly where it is a group and more.** -/
theorem splitGroup?_eq_some_iff (hb : b.opening ≠ b.closing) {group rest : List Token} :
    b.splitGroup? run = some (group, rest) ↔ b.IsGroup group ∧ run = group ++ rest := by
  unfold splitGroup?
  split
  · next ho =>
    simp only [Option.map_eq_some_iff, groupLength_eq_some_iff hb ho, List.splitAt_eq,
      Prod.mk.injEq]
    constructor
    · rintro ⟨_, ⟨group, rest, hg, rfl, rfl⟩, rfl, rfl⟩
      rw [List.take_left, List.drop_left]
      exact ⟨hg, rfl⟩
    · rintro ⟨hg, rfl⟩
      exact ⟨_, ⟨group, rest, hg, rfl, rfl⟩, List.take_left, List.drop_left⟩
  · next ho =>
    constructor
    · intro h
      cases h
    · rintro ⟨hg, rfl⟩
      exact absurd (hg.head?_any rest) ho

/-- **A run is split backwards exactly where it ends with a group.** -/
theorem splitGroup?_reverse_eq_some_iff (hb : b.opening ≠ b.closing) {group rest : List Token} :
    b.flip.splitGroup? run.reverse = some (group.reverse, rest.reverse) ↔
      b.IsGroup group ∧ run = rest ++ group := by
  rw [splitGroup?_eq_some_iff (Ne.symm hb), isGroup_reverse_iff, ← List.reverse_append,
    List.reverse_inj]

/-- A run ends with at most one group. -/
theorem IsGroup.last_unique (hb : b.opening ≠ b.closing) {u v group other : List Token}
    (hg : b.IsGroup group) (ho : b.IsGroup other) (h : u ++ group = v ++ other) :
    u = v ∧ group = other := by
  have hu := (splitGroup?_reverse_eq_some_iff hb).mpr ⟨hg, h.symm⟩
  rw [(splitGroup?_reverse_eq_some_iff hb).mpr ⟨ho, rfl⟩, Option.some.injEq, Prod.mk.injEq,
    List.reverse_inj, List.reverse_inj] at hu
  exact ⟨hu.2.symm, hu.1.symm⟩

/-- Inside of a group, in front of a token that is no bracket of its kind, a bracket is open. -/
theorem IsGroup.open_inside (hb : b.opening ≠ b.closing) {group u v : List Token}
    (h : b.IsGroup group) (hsplit : group = u ++ t :: v) (ho : t.isPunct b.opening = false)
    (hc : t.isPunct b.closing = false) : b.closings u < b.openings u := by
  obtain ⟨o, inner, c, rfl, hopen, hclose, hin⟩ := h
  cases u with
  | nil =>
      obtain ⟨rfl, -⟩ := List.cons.inj hsplit
      rw [hopen] at ho
      cases ho
  | cons x u =>
      have hrest : inner ++ [c] = u ++ t :: v := (List.cons.inj hsplit).2
      obtain ⟨rfl, -⟩ := List.cons.inj hsplit
      -- the token is not the closing bracket, so what is left of `u` is a beginning of `inner`
      rcases concat_eq_append_cons_iff.mp hrest with ⟨-, rfl, -⟩ | ⟨v, -, rfl⟩
      · rw [hclose] at hc
        cases hc
      · have hle := hin.never_more u ⟨t :: v, rfl⟩
        obtain ⟨hcount, hcount'⟩ := counts_cons_opening hb hopen u
        omega

end Bracket

end DeclTags
