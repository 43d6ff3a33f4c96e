import DeclTags.Proofs.Blocks
import DeclTags.Proofs.Candidates
import DeclTags.Proofs.Comments

set_option autoImplicit false

/-! # Where a candidate stands in the source

A candidate has neither comments nor the blocks that interrupt it, so its tokens are not a part of
the source. They are what `outsideBlocks` leaves of one: of the code tokens behind a brace or
semicolon, among which semicolons and blocks stand in parentheses only (`Unbroken`). That is so
after every token (`Scan.run_candidate_standsIn`).

Wherever the candidate is split at a token, that part of the source is (`Unbroken.exists_split`). No
block is left out where no parenthesis can be open (`Unbroken.exists_append`).
-/

namespace DeclTags

/-! ## Outside of blocks -/

/-- The tokens outside of all blocks, if `depth` braces are open before them. -/
def outsideFrom (depth : Nat) : List Token → List Token
  | [] => []
  | t :: ts =>
    if t.isPunct '{' then outsideFrom (depth + 1) ts
    else if t.isPunct '}' then outsideFrom (depth - 1) ts
    else if depth = 0 then t :: outsideFrom depth ts
    else outsideFrom depth ts

/-- The tokens outside of all blocks. -/
def outsideBlocks (ts : List Token) : List Token := outsideFrom 0 ts

theorem outsideFrom_plain {t : Token} (ht : t.isBrace = false) (depth : Nat) (ts : List Token) :
    outsideFrom depth (t :: ts) =
      if depth = 0 then t :: outsideFrom depth ts else outsideFrom depth ts := by
  obtain ⟨ho, hc⟩ := Token.not_isPunct_of_not_isBrace ht
  simp [outsideFrom, ho, hc]

theorem outsideFrom_opening {o : Token} (ho : o.isPunct '{' = true) (depth : Nat)
    (ts : List Token) : outsideFrom depth (o :: ts) = outsideFrom (depth + 1) ts := by
  simp [outsideFrom, ho]

theorem outsideFrom_closing {c : Token} (hc : c.isPunct '}' = true) (depth : Nat)
    (ts : List Token) : outsideFrom depth (c :: ts) = outsideFrom (depth - 1) ts := by
  simp [outsideFrom, hc, Token.not_isPunct_of_ne hc]

/-- In a block everything balanced is left out. -/
theorem outsideFrom_balanced {ts : List Token} (h : Balanced ts) (depth : Nat) (us : List Token) :
    outsideFrom (depth + 1) (ts ++ us) = outsideFrom (depth + 1) us := by
  induction h generalizing depth us with
  | nil => rfl
  | plain ht _ ih =>
      rw [List.cons_append, outsideFrom_plain ht, if_neg (Nat.succ_ne_zero depth), ih]
  | block ho hc _ _ ihi ihr =>
      rw [List.cons_append, List.cons_append, List.append_assoc, outsideFrom_opening ho, ihi,
        List.cons_append, outsideFrom_closing hc, Nat.add_sub_cancel, ihr]

theorem outsideBlocks_plain {t : Token} (ht : t.isBrace = false) (ts : List Token) :
    outsideBlocks (t :: ts) = t :: outsideBlocks ts := outsideFrom_plain ht 0 ts

/-- A block is left out. -/
theorem outsideBlocks_block {o c : Token} {inner : List Token} (ho : o.isPunct '{' = true)
    (hc : c.isPunct '}' = true) (hi : Balanced inner) (ts : List Token) :
    outsideBlocks (o :: inner ++ c :: ts) = outsideBlocks ts := by
  rw [outsideBlocks, List.cons_append, outsideFrom_opening ho, outsideFrom_balanced hi,
    outsideFrom_closing hc]
  rfl

theorem outsideBlocks_append {ts : List Token} (h : Balanced ts) (us : List Token) :
    outsideBlocks (ts ++ us) = outsideBlocks ts ++ outsideBlocks us := by
  induction h with
  | nil => rfl
  | plain ht _ ih =>
      rw [List.cons_append, outsideBlocks_plain ht, ih, outsideBlocks_plain ht, List.cons_append]
  | @block o c inner rest ho hc hi _ _ ihr =>
      have hassoc : o :: inner ++ c :: rest ++ us = o :: inner ++ c :: (rest ++ us) := by simp
      rw [hassoc, outsideBlocks_block ho hc hi, ihr, outsideBlocks_block ho hc hi]

theorem outsideBlocks_concat {ts : List Token} (h : Balanced ts) {t : Token}
    (ht : t.isBrace = false) : outsideBlocks (ts ++ [t]) = outsideBlocks ts ++ [t] := by
  rw [outsideBlocks_append h, outsideBlocks_plain ht]
  rfl

theorem outsideBlocks_concat_block {ts : List Token} (h : Balanced ts) {o c : Token}
    {inner : List Token} (ho : o.isPunct '{' = true) (hc : c.isPunct '}' = true)
    (hi : Balanced inner) : outsideBlocks (ts ++ (o :: inner ++ [c])) = outsideBlocks ts := by
  rw [outsideBlocks_append h, outsideBlocks_block ho hc hi]
  exact List.append_nil _

theorem outsideFrom_sublist (depth : Nat) (ts : List Token) :
    (outsideFrom depth ts).Sublist ts := by
  induction ts generalizing depth with
  | nil => exact .slnil
  | cons t ts ih =>
      rw [outsideFrom]
      split
      · exact (ih _).cons t
      · split
        · exact (ih _).cons t
        · split
          · exact (ih _).cons_cons t
          · exact (ih _).cons t

theorem outsideBlocks_sublist (ts : List Token) : (outsideBlocks ts).Sublist ts :=
  outsideFrom_sublist 0 ts

/-- Behind a first token that is no brace the rest is balanced. -/
theorem Balanced.of_cons {t : Token} {ts : List Token} (h : Balanced (t :: ts))
    (ht : t.isBrace = false) : Balanced ts := by
  cases h with
  | plain _ h => exact h
  | block ho => simp [Token.isBrace, ho] at ht

/-! ## Unbroken parts -/

open Candidate (openParens)

/-- Tokens that no boundary interrupts: a semicolon or a block stands only where, blocks left out, a
parenthesis is open. -/
inductive Unbroken : List Token → Prop where
  | nil : Unbroken []
  | concat {seg : List Token} {t : Token} (h : Unbroken seg) (hbrace : t.isBrace = false)
      (hsemicolon : t.isPunct ';' = true → 0 < openParens (outsideBlocks seg)) :
      Unbroken (seg ++ [t])
  | block {seg inner : List Token} {o c : Token} (h : Unbroken seg) (ho : o.isPunct '{' = true)
      (hc : c.isPunct '}' = true) (hi : Balanced inner)
      (hopen : 0 < openParens (outsideBlocks seg)) : Unbroken (seg ++ (o :: inner ++ [c]))

namespace Unbroken

variable {seg : List Token}

theorem balanced (h : Unbroken seg) : Balanced seg := by
  induction h with
  | nil => exact .nil
  | concat _ hbrace _ ih => exact ih.concat_plain hbrace
  | block _ ho hc hi _ ih => exact ih.append (hi.enclose ho hc)

/-- The first token stands outside of all blocks. -/
theorem head?_outsideBlocks (h : Unbroken seg) : (outsideBlocks seg).head? = seg.head? := by
  induction h with
  | nil => rfl
  | concat h hbrace _ ih =>
      rw [outsideBlocks_concat h.balanced hbrace, List.head?_append, ih, List.head?_append]
  | @block seg inner o c h ho hc hi hopen ih =>
      rw [outsideBlocks_concat_block h.balanced ho hc hi]
      cases seg with
      | nil => cases hopen
      | cons t seg => exact ih

/-- Where a token stands outside of all blocks, the tokens can be split at it. -/
theorem exists_split (h : Unbroken seg) {first second : List Token} {t : Token}
    (hrun : outsideBlocks seg = first ++ t :: second) :
    ∃ u v, seg = u ++ t :: v ∧ Unbroken u ∧ outsideBlocks u = first ∧ Balanced v ∧
      outsideBlocks v = second := by
  induction h generalizing second with
  | nil => cases first <;> cases hrun
  | @concat seg last h hbrace hsemicolon ih =>
      rw [outsideBlocks_concat h.balanced hbrace, concat_eq_append_cons_iff] at hrun
      rcases hrun with ⟨hfirst, rfl, rfl⟩ | ⟨second, rfl, hrun⟩
      · exact ⟨seg, [], rfl, h, hfirst, .nil, rfl⟩
      · obtain ⟨u, v, rfl, hu, hfirst, hv, rfl⟩ := ih hrun
        exact ⟨u, v ++ [last], by simp, hu, hfirst, hv.concat_plain hbrace,
          outsideBlocks_concat hv hbrace⟩
  | @block seg inner o c h ho hc hi hopen ih =>
      rw [outsideBlocks_concat_block h.balanced ho hc hi] at hrun
      obtain ⟨u, v, rfl, hu, hfirst, hv, rfl⟩ := ih hrun
      exact ⟨u, v ++ (o :: inner ++ [c]), by simp, hu, hfirst, hv.append (hi.enclose ho hc),
        outsideBlocks_concat_block hv ho hc hi⟩

/-- Up to a place where no parenthesis is open, nothing is left out behind the last `)`. -/
theorem exists_append (h : Unbroken seg) {first second : List Token}
    (hrun : outsideBlocks seg = first ++ second) (hopen : openParens (outsideBlocks seg) = 0)
    (hno : ∀ t ∈ second, t.isPunct ')' = false) :
    ∃ u, seg = u ++ second ∧ Unbroken u ∧ outsideBlocks u = first ∧ Balanced second ∧
      outsideBlocks second = second := by
  induction h generalizing second with
  | nil =>
      obtain ⟨rfl, rfl⟩ := List.append_eq_nil_iff.mp hrun.symm
      exact ⟨[], rfl, .nil, rfl, .nil, rfl⟩
  | @concat seg last h hbrace hsemicolon ih =>
      rcases List.eq_nil_or_concat' second with rfl | ⟨second, t, rfl⟩
      · exact ⟨seg ++ [last], (List.append_nil _).symm, h.concat hbrace hsemicolon,
          hrun.trans (List.append_nil first), .nil, rfl⟩
      · rw [outsideBlocks_concat h.balanced hbrace] at hrun hopen
        rw [← List.append_assoc] at hrun
        obtain ⟨hinit, hlast⟩ := List.append_inj' hrun rfl
        obtain rfl := List.singleton_inj.mp hlast
        -- a token other than `)` does not lower the number of open parentheses
        have hzero : openParens (outsideBlocks seg) = 0 := by
          have hclosing : last.isPunct ')' = false := hno last (by simp)
          rw [Candidate.openParens_concat, Candidate.depthAfter, hclosing,
            if_neg Bool.false_ne_true] at hopen
          split at hopen
          · cases hopen
          · exact hopen
        obtain ⟨u, rfl, hu, hfirst, hbalanced, hwhole⟩ :=
          ih hinit hzero fun t ht => hno t (List.mem_append_left _ ht)
        exact ⟨u, List.append_assoc .., hu, hfirst, hbalanced.concat_plain hbrace,
          by rw [outsideBlocks_concat hbalanced hbrace, hwhole]⟩
  | block h ho hc hi hpos _ =>
      rw [outsideBlocks_concat_block h.balanced ho hc hi] at hopen
      exact absurd hopen (Nat.ne_of_gt hpos)

end Unbroken

/-! ## The candidate of a scan -/

/-- The tokens end with a boundary, or there are none. -/
def EndsAtBoundary (ts : List Token) : Prop :=
  ts = [] ∨ ∃ init b, ts = init ++ [b] ∧ b.isStructural = true

/-- The candidate is what is left of the last tokens outside of blocks, from a boundary on. -/
def Candidate.StandsIn (limit : Nat) (ts : List Token) (c : Candidate) : Prop :=
  ∃ start seg doc, ts = start ++ seg ∧ EndsAtBoundary start ∧ Unbroken seg ∧
    c = .ofRun limit doc (outsideBlocks seg)

namespace Candidate.StandsIn

variable {limit : Nat} {ts : List Token}

/-- At a boundary there is no candidate. -/
theorem boundary (limit : Nat) (ts : List Token) {b : Token} (hb : b.isStructural = true) :
    StandsIn limit (ts ++ [b]) {} :=
  ⟨ts ++ [b], [], none, (List.append_nil _).symm, .inr ⟨ts, b, rfl, hb⟩, .nil, rfl⟩

/-- A token is added that is no boundary where it stands. -/
theorem extend {g : Grammar} {r : Recognizer} (h : r.candidate.StandsIn g.maxCandidateTokens ts)
    {t : Token} (hbrace : t.isBrace = false)
    (hsemicolon : t.isPunct ';' = true → 0 < r.candidate.parenDepth) :
    (r.extend g t).candidate.StandsIn g.maxCandidateTokens (ts ++ [t]) := by
  obtain ⟨start, seg, doc, rfl, hstart, hseg, hc⟩ := h
  rw [hc, ofRun_parenDepth] at hsemicolon
  have hadd : ∀ doc', (ofRun g.maxCandidateTokens doc' (outsideBlocks seg)).add
      g.maxCandidateTokens t = ofRun g.maxCandidateTokens doc' (outsideBlocks (seg ++ [t])) := by
    intro doc'
    rw [ofRun_concat, outsideBlocks_concat hseg.balanced hbrace]
  have hseg' : Unbroken (seg ++ [t]) := hseg.concat hbrace hsemicolon
  rw [Recognizer.extend, hc]
  split
  · exact ⟨start, seg ++ [t], _, List.append_assoc .., hstart, hseg',
      by rw [ofRun_withDoc, hadd]⟩
  · exact ⟨start, seg ++ [t], doc, List.append_assoc .., hstart, hseg', hadd doc⟩

/-- Over a block a candidate waits, if it stands in parentheses. -/
theorem afterBlock {r : Recognizer} (h : r.candidate.StandsIn limit ts) {o c : Token}
    {inner : List Token} (ho : o.isPunct '{' = true) (hc : c.isPunct '}' = true)
    (hi : Balanced inner) : r.afterBlock.candidate.StandsIn limit (ts ++ (o :: inner ++ [c])) := by
  by_cases hp : 0 < r.candidate.parenDepth
  · obtain ⟨start, seg, doc, rfl, hstart, hseg, hcandidate⟩ := h
    have hopen : 0 < openParens (outsideBlocks seg) := by
      rwa [hcandidate, ofRun_parenDepth] at hp
    rw [Recognizer.afterBlock, if_pos hp]
    exact ⟨start, seg ++ (o :: inner ++ [c]), doc, List.append_assoc .., hstart,
      hseg.block ho hc hi hopen, by rw [outsideBlocks_concat_block hseg.balanced ho hc hi,
        hcandidate]⟩
  · have hboundary : c.isStructural = true := by simp [Token.isStructural, Token.isBrace, hc]
    rw [Recognizer.afterBlock, if_neg hp, ← List.append_assoc]
    exact boundary limit _ hboundary

end Candidate.StandsIn

namespace Scan

variable {g : Grammar} {source : String} {ts : List Token}

/-- A token of code is added to the candidate. -/
theorem observe_code {r : Recognizer} {t : Token} (hfiller : t.isFiller = false)
    (hend : t.kind ≠ .endOfInput) : r.observe g t = r.extend g t := by
  unfold Recognizer.observe
  cases hk : t.kind with
  | endOfInput => exact absurd hk hend
  | blank | newline | lineComment | blockComment =>
      simp [Token.isFiller, hk, TokenKind.isBlank, TokenKind.isComment] at hfiller
  | _ => rfl

/-- **The candidate stands in the source**: after some tokens of code it is what is left outside of
blocks of the last of them, from a boundary on, and none of these interrupts it. -/
theorem run_candidate_standsIn (g : Grammar) (source : String) (ts : List Token)
    (hcode : ∀ t ∈ ts, t.isFiller = false ∧ t.kind ≠ .endOfInput) :
    (run g source ts {}).recognizer.candidate.StandsIn g.maxCandidateTokens ts := by
  induction ts using brace_induction with
  | nil => exact ⟨[], [], none, rfl, .inl rfl, .nil, rfl⟩
  | opening ts o ho _ =>
      rw [run_append, run_cons, run_nil, feed_recognizer_of_opening ho]
      exact Candidate.StandsIn.boundary _ _ (by simp [Token.isStructural, Token.isBrace, ho])
  | closing ts c hc ih =>
      rcases run_closing_cases g source ts hc with ⟨-, hr⟩ | ⟨before, o, inner, rfl, ho, hb, hr⟩
      · rw [hr]
        exact Candidate.StandsIn.boundary _ _ (by simp [Token.isStructural, Token.isBrace, hc])
      · have hbefore := ih before (by simp) fun t ht => hcode t (by simp [ht])
        rw [hr, List.append_assoc]
        exact hbefore.afterBlock ho hc hb
  | plain ts t ht ih =>
      obtain ⟨hfiller, hend⟩ := hcode t (by simp)
      have hts := ih ts (Nat.le_refl _) fun u hu => hcode u (List.mem_append_left _ hu)
      rw [run_append, run_cons, run_nil]
      cases hs : t.isPunct ';' with
      | true =>
          rw [feed_recognizer_of_semicolon hs, Recognizer.semicolon]
          split
          · next hp =>
            rw [observe_code hfiller hend]
            exact hts.extend ht fun _ => by simpa [Recognizer.inParenGroup] using hp
          · exact Candidate.StandsIn.boundary _ _ (by simp [Token.isStructural, hs])
      | false =>
          have hp : t.isStructural = false := by simp [Token.isStructural, ht, hs]
          rw [feed_recognizer_of_plain hp, observe_code hfiller hend]
          exact hts.extend ht fun h => by rw [hs] at h; cases h

end Scan

end DeclTags
