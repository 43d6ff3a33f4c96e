import DeclTags.Proofs.Groups
import DeclTags.Proofs.Headers
import DeclTags.Candidate.Tail
import Mathlib.Data.List.Chain

set_option autoImplicit false

/-! # What follows the parameters

Behind its parameters a declaration may carry a chain to another constructor (`IsChain`), a trailing
clause (`IsTrailingClause`), and at a semicolon a default value or an expression body (`IsArrow`).

All of these are looked for behind the first closed group of parentheses and outside of all of them.
In a run whose parentheses match, `BehindGroup` says that of the tokens in front, by counting. So a
clause is cut off where it begins (`withoutTrailingClause?_complete`) unless a keyword of that kind
stands behind an earlier group.
-/

namespace DeclTags

open DeclTags.Bracket (parens)

/-! ## Behind a group -/

/-- As many parentheses are closed in front as are opened there, and at least one. -/
def BehindGroup (before : List Token) : Prop :=
  parens.openings before = parens.closings before ∧ 0 < parens.closings before

/-- What the search for the cut knows of the tokens behind it (last first). -/
structure CutState (done : List Token) (depth : Nat) (closed : Bool) : Prop where
  depth_eq : depth + parens.closings done = parens.openings done
  closed_iff : depth = 0 → (closed = true ↔ 0 < parens.closings done)

namespace CutState

variable {done : List Token} {depth : Nat} {closed : Bool} {t : Token}

theorem start : CutState [] 0 false := ⟨rfl, by simp⟩

theorem behindGroup_iff (h : CutState done depth closed) :
    BehindGroup done.reverse ↔ (closed && depth == 0) = true := by
  have hd := h.depth_eq
  simp only [BehindGroup, Bracket.openings_reverse, Bracket.closings_reverse, Bool.and_eq_true,
    beq_iff_eq]
  constructor
  · rintro ⟨heq, hpos⟩
    have h0 : depth = 0 := by omega
    exact ⟨(h.closed_iff h0).mpr hpos, h0⟩
  · rintro ⟨hc, rfl⟩
    exact ⟨by omega, (h.closed_iff rfl).mp hc⟩

theorem opening (h : CutState done depth closed) (ht : t.isPunct '(' = true) :
    CutState (t :: done) (depth + 1) closed := by
  obtain ⟨ho, hc⟩ := parens.counts_cons_opening (by decide) ht done
  have hd := h.depth_eq
  exact ⟨by omega, fun h0 => absurd h0 (Nat.succ_ne_zero _)⟩

theorem closing (h : CutState done (depth + 1) closed) (ht : t.isPunct ')' = true) :
    CutState (t :: done) depth (closed || depth + 1 ≤ 1) := by
  obtain ⟨ho, hc⟩ := parens.counts_cons_closing (by decide) ht done
  have hd := h.depth_eq
  refine ⟨by omega, ?_⟩
  rintro rfl
  simp [hc]

theorem other (h : CutState done depth closed) (ho : t.isPunct '(' = false)
    (hc : t.isPunct ')' = false) : CutState (t :: done) depth closed := by
  obtain ⟨hopen, hclose⟩ := parens.counts_cons_other ho hc done
  obtain ⟨hd, hclosed⟩ := h
  exact ⟨by omega, by rwa [hclose]⟩

end CutState

variable {starts : List Token → Bool} {done run rest before : List Token} {depth : Nat}
  {closed : Bool}

/-- The search passes over a run that closes no more parentheses than are open, if nothing that it
looks for begins there behind a group. -/
theorem cutAfterGroupFrom_pass (rest : List Token) (hs : CutState done depth closed)
    (hbal : parens.NeverMore depth run)
    (hno : ∀ u v, run = u ++ v → v ≠ [] → BehindGroup (done.reverse ++ u) →
      starts (v ++ rest) = false) :
    ∃ depth' closed', CutState (run.reverse ++ done) depth' closed' ∧
      cutAfterGroupFrom starts done depth closed (run ++ rest) =
        cutAfterGroupFrom starts (run.reverse ++ done) depth' closed' rest := by
  induction run generalizing done depth closed with
  | nil => exact ⟨depth, closed, hs, rfl⟩
  | cons t run ih =>
      have hrev : (t :: run).reverse ++ done = run.reverse ++ t :: done := by simp
      have hno' : ∀ u v, run = u ++ v → v ≠ [] → BehindGroup ((t :: done).reverse ++ u) →
          starts (v ++ rest) = false := by
        intro u v huv hv hb
        rw [List.reverse_cons, List.append_assoc] at hb
        exact hno (t :: u) v (by rw [huv, List.cons_append]) hv hb
      rw [hrev, List.cons_append, cutAfterGroupFrom]
      by_cases ho : t.isPunct '(' = true
      · rw [if_pos ho]
        exact ih (hs.opening ho) ((Bracket.neverMore_cons_opening (by decide) ho).mp hbal) hno'
      rw [if_neg ho]
      by_cases hc : t.isPunct ')' = true
      · rw [if_pos hc]
        cases depth with
        | zero => exact absurd hbal (Bracket.not_neverMore_zero_cons (by decide) hc)
        | succ depth =>
            exact ih (hs.closing hc) ((Bracket.neverMore_cons_closing (by decide) hc).mp hbal)
              hno'
      rw [if_neg hc]
      rw [Bool.not_eq_true] at ho hc
      -- what is looked for does not begin at `t`
      have hnot : (closed && depth == 0 && starts (t :: (run ++ rest))) = false := by
        by_cases hb : BehindGroup done.reverse
        · have hstart := hno [] (t :: run) rfl (by simp) (by rwa [List.append_nil])
          rw [List.cons_append] at hstart
          rw [hstart, Bool.and_false]
        · rw [hs.behindGroup_iff, Bool.not_eq_true] at hb
          rw [hb, Bool.false_and]
      rw [hnot, if_neg Bool.false_ne_true]
      exact ih (hs.other ho hc) ((Bracket.neverMore_cons_other ho hc).mp hbal) hno'

theorem cutAfterGroup?_eq_none (hbal : parens.Balanced run)
    (hno : ∀ u v, run = u ++ v → v ≠ [] → BehindGroup u → starts v = false) :
    cutAfterGroup? starts run = none := by
  have hno' : ∀ u v, run = u ++ v → v ≠ [] → BehindGroup u → starts (v ++ []) = false :=
    fun u v huv hv hb => by simpa using hno u v huv hv hb
  obtain ⟨depth, closed, -, h⟩ := cutAfterGroupFrom_pass [] CutState.start hbal.never_more hno'
  rw [List.append_nil] at h
  exact h

theorem cutAfterGroup?_eq_some {t : Token} (hbal : parens.Balanced run)
    (hno : ∀ u v, run = u ++ v → v ≠ [] → BehindGroup u → starts (v ++ t :: rest) = false)
    (hgroup : BehindGroup run) (ht : t.isPunct '(' = false ∧ t.isPunct ')' = false)
    (hstarts : starts (t :: rest) = true) :
    cutAfterGroup? starts (run ++ t :: rest) = some (run, t :: rest) := by
  obtain ⟨depth, closed, hs, h⟩ := cutAfterGroupFrom_pass (t :: rest) CutState.start
    hbal.never_more hno
  have hb : BehindGroup (run.reverse ++ []).reverse := by simpa using hgroup
  rw [hs.behindGroup_iff] at hb
  rw [cutAfterGroup?, h, cutAfterGroupFrom, ht.1, ht.2, hb, hstarts]
  simp

/-- Where a run is cut, what was looked for begins. -/
theorem cutAfterGroupFrom_starts {first second : List Token}
    (h : cutAfterGroupFrom starts done depth closed run = some (first, second)) :
    starts second = true := by
  revert h
  fun_induction cutAfterGroupFrom starts done depth closed run with
  | case1 =>
      intro h
      cases h
  | case2 _ _ _ _ _ _ ih => exact ih
  | case3 _ _ _ _ _ _ _ ih => exact ih
  | case4 _ _ _ _ _ _ _ hstarts =>
      intro h
      cases h
      rw [Bool.and_eq_true] at hstarts
      exact hstarts.2
  | case5 _ _ _ _ _ _ _ _ ih => exact ih

theorem cutAfterGroup?_starts {first second : List Token}
    (h : cutAfterGroup? starts run = some (first, second)) : starts second = true :=
  cutAfterGroupFrom_starts h

/-! ## Trailing clauses -/

/-- A keyword of a trailing clause. -/
def IsClauseKeyword (g : Grammar) (t : Token) : Prop :=
  t.isKeyword = true ∧ g.isTrailingClause t.text = true

/-- A keyword of a trailing clause, and tokens that may stand in one. -/
def IsTrailingClause (g : Grammar) (clause : List Token) : Prop :=
  ∃ keyword body, clause = keyword :: body ∧ IsClauseKeyword g keyword ∧ body ≠ [] ∧
    ∀ t ∈ body, isClauseToken t = true

variable {g : Grammar} {clause : List Token}

theorem startsTrailingClause_cons_iff {t : Token} :
    startsTrailingClause g (t :: run) = true ↔ IsClauseKeyword g t := by
  simp [startsTrailingClause, IsClauseKeyword]

theorem withoutTrailingClause?_sound (h : withoutTrailingClause? g run = some rest) :
    ∃ clause, run = rest ++ clause ∧ (clause = [] ∨ IsTrailingClause g clause) := by
  unfold withoutTrailingClause? at h
  split at h
  · cases h
    exact ⟨[], by simp, .inl rfl⟩
  · next before clause hcut =>
    split at h
    · next hvalid =>
      cases h
      have hstarts := cutAfterGroup?_starts hcut
      cases clause with
      | nil => cases hstarts
      | cons keyword body =>
          simp only [List.tail_cons, Bool.and_eq_true, Bool.not_eq_true', List.isEmpty_eq_false_iff,
            List.all_eq_true] at hvalid
          exact ⟨keyword :: body, (cutAfterGroup?_append hcut).symm,
            .inr ⟨keyword, body, rfl, startsTrailingClause_cons_iff.mp hstarts, hvalid⟩⟩
    · cases h

/-- A trailing clause is cut off, if no keyword of that kind stands behind an earlier group. -/
theorem withoutTrailingClause?_complete (hbal : parens.Balanced run)
    (hgroup : 0 < parens.closings run)
    (hno : ∀ u t v, run = u ++ t :: v → IsClauseKeyword g t → ¬BehindGroup u)
    (hclause : clause = [] ∨ IsTrailingClause g clause) :
    withoutTrailingClause? g (run ++ clause) = some run := by
  have hstarts : ∀ u v after, run = u ++ v → v ≠ [] → BehindGroup u →
      startsTrailingClause g (v ++ after) = false := by
    intro u v after huv hv hb
    cases v with
    | nil => exact absurd rfl hv
    | cons t v =>
        rw [Bool.eq_false_iff, List.cons_append, ne_eq, startsTrailingClause_cons_iff]
        exact fun ht => hno u t v huv ht hb
  have hbehind : BehindGroup run := ⟨by simpa using hbal.all.symm, hgroup⟩
  rcases hclause with rfl | ⟨keyword, body, rfl, hkeyword, hbody, hall⟩
  · have hcut := cutAfterGroup?_eq_none hbal fun u v huv hv hb => by
      simpa using hstarts u v [] huv hv hb
    rw [List.append_nil, withoutTrailingClause?, hcut]
  · have hpunct := Token.not_isPunct_of_isWord (Token.isWord_of_isKeyword hkeyword.1)
    have hcut := cutAfterGroup?_eq_some hbal (fun u v => hstarts u v (keyword :: body)) hbehind
      ⟨hpunct _, hpunct _⟩ (startsTrailingClause_cons_iff.mpr hkeyword)
    have hvalid : (!body.isEmpty && body.all isClauseToken) = true := by
      simpa [hbody] using hall
    rw [withoutTrailingClause?, hcut]
    simp only [List.tail_cons, hvalid, if_true]

/-! ## Chains to another constructor -/

/-- A chain to another constructor: a colon, its keyword and arguments. -/
def IsChain (g : Grammar) (chain : List Token) : Prop :=
  ∃ colon keyword arguments, chain = colon :: keyword :: arguments ∧ colon.isPunct ':' = true ∧
    keyword.isKeyword = true ∧ g.isConstructorInitializer keyword.text = true ∧
    parens.IsGroup arguments

/-- A chain is found exactly at the end of a run. -/
theorem beforeInitializer?_eq_some_iff :
    beforeInitializer? g run.reverse = some before.reverse ↔
      ∃ chain, IsChain g chain ∧ run = before ++ chain := by
  simp only [beforeInitializer?, Option.bind_eq_bind, Option.bind_eq_some_iff, Prod.exists]
  constructor
  · rintro ⟨group, back, hsplit, h⟩
    split at h
    · next keyword colon rest =>
      split at h
      · next hc =>
        cases h
        simp only [Bool.and_eq_true] at hc
        obtain ⟨hgroup, hrun⟩ := (Bracket.splitGroup?_eq_some_iff (by decide)).mp hsplit
        refine ⟨colon :: keyword :: group.reverse, ⟨colon, keyword, group.reverse, rfl, hc.2,
          hc.1.1, hc.1.2, Bracket.isGroup_reverse_iff.mp (by rwa [List.reverse_reverse])⟩, ?_⟩
        rw [← List.reverse_inj, hrun]
        simp
      · cases h
    · cases h
  · rintro ⟨chain, ⟨colon, keyword, arguments, rfl, hcolon, hkeyword, hinit, harguments⟩, rfl⟩
    refine ⟨arguments.reverse, (before ++ [colon, keyword]).reverse,
      (Bracket.splitGroup?_reverse_eq_some_iff (by decide)).mpr ⟨harguments, by simp⟩, ?_⟩
    simp [hcolon, hkeyword, hinit]

theorem IsChain.balanced {chain : List Token} (h : IsChain g chain) : parens.Balanced chain := by
  obtain ⟨colon, keyword, arguments, rfl, hcolon, hkeyword, -, hgroup⟩ := h
  have hpunct := Token.not_isPunct_of_isWord (Token.isWord_of_isKeyword hkeyword)
  exact (Bracket.closes_cons_other (Token.not_isPunct_of_ne hcolon (by decide))
    (Token.not_isPunct_of_ne hcolon (by decide))).mpr
      ((Bracket.closes_cons_other (hpunct _) (hpunct _)).mpr (hgroup.balanced (by decide)))

/-- In a chain no keyword of a trailing clause stands outside of parentheses. -/
theorem IsChain.not_behindGroup {main chain u v : List Token} {t : Token}
    (hinit : ∀ word, g.isConstructorInitializer word = true → g.isTrailingClause word = false)
    (hmain : parens.Balanced main) (h : IsChain g chain) (hsplit : chain = u ++ t :: v)
    (ht : IsClauseKeyword g t) : ¬BehindGroup (main ++ u) := by
  obtain ⟨colon, keyword, arguments, rfl, hcolon, hkeyword, hword, hgroup⟩ := h
  have htpunct := Token.not_isPunct_of_isWord (Token.isWord_of_isKeyword ht.1)
  have hkpunct := Token.not_isPunct_of_isWord (Token.isWord_of_isKeyword hkeyword)
  match u, hsplit with
  | [], hsplit =>
    obtain ⟨rfl, -⟩ := List.cons.inj hsplit
    rw [htpunct] at hcolon
    cases hcolon
  | [_], hsplit =>
    obtain ⟨-, hsplit⟩ := List.cons.inj hsplit
    obtain ⟨rfl, -⟩ := List.cons.inj hsplit
    rw [IsClauseKeyword, hinit _ hword] at ht
    cases ht.2
  | x :: y :: u, hsplit =>
    simp only [List.cons_append, List.cons.injEq] at hsplit
    obtain ⟨rfl, rfl, hsplit⟩ := hsplit
    have hopen := hgroup.open_inside (by decide) hsplit (htpunct _) (htpunct _)
    have hall := hmain.all
    obtain ⟨hco, hcc⟩ := parens.counts_cons_other (Token.not_isPunct_of_ne hcolon (by decide))
      (Token.not_isPunct_of_ne hcolon (by decide)) (keyword :: u)
    obtain ⟨hko, hkc⟩ := parens.counts_cons_other (hkpunct _) (hkpunct _) u
    rintro ⟨heq, -⟩
    rw [Bracket.openings_append, Bracket.closings_append] at heq
    omega

/-! ## Default values and expression bodies -/

/-- The arrow of an expression body, spelled by adjacent tokens. -/
def IsArrow (g : Grammar) (mark : List Token) : Prop :=
  ∃ arrow, g.expressionBodyArrow = some arrow ∧
    mark.map Token.kind = arrow.toList.map TokenKind.punctuation ∧
    mark.IsChain fun t u => t.stop = u.start

theorem spellsFrom_sound {start : Nat} {cs : List Char} (h : spellsFrom start cs run = true) :
    ∃ mark rest, run = mark ++ rest ∧ mark.map Token.kind = cs.map TokenKind.punctuation ∧
      (∀ t ∈ mark.head?, t.start = start) ∧ mark.IsChain fun t u => t.stop = u.start := by
  induction cs generalizing start run with
  | nil => exact ⟨[], run, rfl, rfl, by simp, .nil⟩
  | cons c cs ih =>
      cases run with
      | nil => cases h
      | cons t run =>
          simp only [spellsFrom, Bool.and_eq_true, Token.isPunct_iff, beq_iff_eq] at h
          obtain ⟨mark, rest, rfl, hkinds, hhead, hchain⟩ := ih h.2
          refine ⟨t :: mark, rest, rfl, by simp [hkinds, h.1.1], by simp [h.1.2], ?_⟩
          exact List.isChain_cons.mpr ⟨fun u hu => (hhead u hu).symm, hchain⟩

/-- What is cut off as a member's tail is a mark and more: an arrow if it is an expression body. -/
theorem memberTail?_sound {tail : MemberTail} (h : memberTail? g run = some (before, tail)) :
    ∃ mark body, run = before ++ mark ++ body ∧ body ≠ [] ∧
      (tail = .expressionBody → IsArrow g mark) := by
  simp only [memberTail?, Option.bind_eq_bind, Option.bind_eq_some_iff, Prod.exists] at h
  obtain ⟨first, second, hcut, tail', n, hmark, h⟩ := h
  split at h
  · next hn =>
    cases h
    have hrun := cutAfterGroup?_append hcut
    unfold tailMark? at hmark
    split at hmark
    · cases hmark
      refine ⟨second.take 1, second.drop 1, ?_, ?_, by simp⟩
      · rw [List.append_assoc, List.take_append_drop, hrun]
      · exact List.ne_nil_of_length_pos (by rw [List.length_drop]; omega)
    · obtain ⟨arrow, harrow, hspells⟩ := Option.bind_eq_some_iff.mp hmark
      split at hspells
      · next hs =>
        cases hspells
        obtain ⟨mark, body, rfl, hkinds, -, hchain⟩ := spellsFrom_sound hs
        refine ⟨mark, body, by rw [List.append_assoc, hrun], ?_, fun _ => ⟨arrow, harrow, hkinds,
          hchain⟩⟩
        rintro rfl
        have hlen := congrArg List.length hkinds
        simp only [List.length_map, String.length_toList] at hlen
        rw [List.append_nil] at hn
        omega
      · cases hspells
  · cases h

end DeclTags
