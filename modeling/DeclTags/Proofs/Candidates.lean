import DeclTags.Proofs.Groups
import DeclTags.Proofs.Nesting

set_option autoImplicit false

/-! # Candidates as runs

A candidate is its tokens, put together one after another behind a comment (`Candidate.ofRun`). That
is so of every candidate that a scan comes by, whether it is taken up again behind a block or not
(`Scan.run_candidate`). Where the parentheses match and there are not too many tokens, nothing else
is to be known of it (`Candidate.ofRun_eq`).
-/

namespace DeclTags

open DeclTags.Bracket (parens)

namespace Candidate

/-- The candidate that the tokens make, one after another, behind a comment. -/
def ofRun (limit : Nat) (doc : Option String) (run : List Token) : Candidate :=
  run.foldl (fun c t => c.add limit t) { doc := doc }

theorem foldl_add {limit : Nat} {run : List Token} {c : Candidate}
    (h : c.size + run.length ≤ limit) :
    run.foldl (fun c t => c.add limit t) c =
      { c with
        back := run.reverse ++ c.back
        size := c.size + run.length
        parenDepth := run.foldl depthAfter c.parenDepth } := by
  induction run generalizing c with
  | nil => rfl
  | cons t run ih =>
      rw [List.length_cons] at h
      have hadd : c.add limit t =
          { c with
            back := t :: c.back
            size := c.size + 1
            parenDepth := depthAfter c.parenDepth t } := by
        simp only [add]
        rw [if_pos (by omega)]
      rw [List.foldl_cons, hadd, ih (by simp only; omega)]
      simp only [List.reverse_cons, List.append_assoc, List.singleton_append, List.length_cons,
        List.foldl_cons, Nat.add_assoc, Nat.add_comm 1]

/-- The depth falls by the parentheses that a run closes of those open before it. -/
theorem foldl_depthAfter {d k : Nat} {run : List Token} (h : parens.Closes d run) :
    run.foldl depthAfter (d + k) = k := by
  induction run generalizing d with
  | nil =>
      rw [Bracket.closes_nil_iff] at h
      rw [h, List.foldl_nil, Nat.zero_add]
  | cons t run ih =>
      rw [List.foldl_cons, depthAfter]
      by_cases ho : t.isPunct '(' = true
      · rw [if_pos ho, show d + k + 1 = d + 1 + k by omega]
        exact ih ((Bracket.closes_cons_opening (by decide) ho).mp h)
      rw [if_neg ho]
      by_cases hc : t.isPunct ')' = true
      · rw [if_pos hc]
        -- the run closes what it opens and `d` more, so this is not one of the `k` others
        cases d with
        | zero => exact absurd h (Bracket.not_closes_zero_cons (by decide) hc)
        | succ d =>
            rw [show d + 1 + k - 1 = d + k by omega]
            exact ih ((Bracket.closes_cons_closing (by decide) hc).mp h)
      rw [if_neg hc]
      rw [Bool.not_eq_true] at ho hc
      exact ih ((Bracket.closes_cons_other ho hc).mp h)

/-! ## Open parentheses -/

/-- The number of parentheses that are open behind the run. -/
def openParens (run : List Token) : Nat := run.foldl depthAfter 0

theorem openParens_concat (run : List Token) (t : Token) :
    openParens (run ++ [t]) = depthAfter (openParens run) t := List.foldl_concat ..

theorem openParens_append_balanced (run : List Token) {part : List Token}
    (h : parens.Balanced part) : openParens (run ++ part) = openParens run := by
  have hpart : part.foldl depthAfter (0 + openParens run) = openParens run := foldl_depthAfter h
  rwa [Nat.zero_add, openParens, ← List.foldl_append] at hpart

theorem cutAfterGroupFrom_openParens {starts : List Token → Bool} {before run : List Token}
    {depth : Nat} {closed : Bool} {first second : List Token}
    (hd : openParens before.reverse = depth)
    (h : cutAfterGroupFrom starts before depth closed run = some (first, second)) :
    openParens first = 0 := by
  revert h
  fun_induction cutAfterGroupFrom starts before depth closed run with
  | case1 =>
      intro h
      cases h
  | case2 before depth closed t run ho ih =>
      refine ih ?_
      rw [List.reverse_cons, openParens_concat, hd, depthAfter, if_pos ho]
  | case3 before depth closed t run ho hc ih =>
      refine ih ?_
      rw [List.reverse_cons, openParens_concat, hd, depthAfter, if_neg ho, if_pos hc]
  | case4 before depth closed t run ho hc hcut =>
      intro h
      cases h
      simp only [Bool.and_eq_true, beq_iff_eq] at hcut
      exact hd.trans hcut.1.2
  | case5 before depth closed t run ho hc hcut ih =>
      refine ih ?_
      rw [List.reverse_cons, openParens_concat, hd, depthAfter, if_neg ho, if_neg hc]

/-- A run is cut where no parenthesis is open. -/
theorem cutAfterGroup?_openParens {starts : List Token → Bool} {run first second : List Token}
    (h : cutAfterGroup? starts run = some (first, second)) : openParens first = 0 :=
  cutAfterGroupFrom_openParens rfl h

/-- If no parenthesis is open behind a run, none is without its trailing clause. -/
theorem withoutTrailingClause?_openParens {g : Grammar} {run rest : List Token}
    (h : withoutTrailingClause? g run = some rest) (hrun : openParens run = 0) :
    openParens rest = 0 := by
  unfold withoutTrailingClause? at h
  split at h
  · cases h
    exact hrun
  · next hcut =>
    split at h
    · cases h
      exact cutAfterGroup?_openParens hcut
    · cases h

/-- If no parenthesis is open behind a candidate, none is behind what a semicolon judges. -/
theorem member_openParens {g : Grammar} {c : Candidate} (h : openParens c.tokens = 0) :
    openParens (c.member g).1 = 0 := by
  have htail : ∀ {before : List Token} {tail : MemberTail},
      memberTail? g c.tokens = some (before, tail) → openParens before = 0 := by
    intro before tail hb
    simp only [memberTail?, Option.bind_eq_bind, Option.bind_eq_some_iff, Prod.exists] at hb
    obtain ⟨first, second, hcut, _, _, -, hb⟩ := hb
    split at hb
    · cases hb
      exact cutAfterGroup?_openParens hcut
    · cases hb
  unfold member
  simp only
  split
  · next hb => exact htail hb
  · next hb => exact htail hb
  · exact h

/-! ## Candidates of a run -/

/-- The candidate of a balanced run that is not too long. -/
theorem ofRun_eq {limit : Nat} {doc : Option String} {run : List Token}
    (hlen : run.length ≤ limit) (h : parens.Balanced run) :
    ofRun limit doc run = { back := run.reverse, size := run.length, doc := doc } := by
  rw [ofRun, foldl_add (by simpa using hlen)]
  have hdepth : run.foldl depthAfter 0 = 0 := foldl_depthAfter (k := 0) h
  simp [hdepth]

/-- The comment does not matter for the tokens. -/
theorem ofRun_withDoc (limit : Nat) (doc doc' : Option String) (run : List Token) :
    { ofRun limit doc run with doc := doc' } = ofRun limit doc' run := by
  have hstep : ∀ (c : Candidate) (t : Token),
      { c.add limit t with doc := doc' } = ({ c with doc := doc' } : Candidate).add limit t := by
    intro c t
    simp only [add]
    split <;> rfl
  unfold ofRun
  induction run using List.reverseRecOn with
  | nil => rfl
  | append_singleton run t ih => rw [List.foldl_concat, List.foldl_concat, hstep, ih]

theorem ofRun_concat (limit : Nat) (doc : Option String) (run : List Token) (t : Token) :
    (ofRun limit doc run).add limit t = ofRun limit doc (run ++ [t]) := by
  rw [ofRun, ofRun, List.foldl_concat]

/-- Whether it is kept or not, a token opens or closes a parenthesis. -/
theorem add_parenDepth (limit : Nat) (t : Token) (c : Candidate) :
    (c.add limit t).parenDepth = depthAfter c.parenDepth t := by
  unfold add
  simp only
  split <;> rfl

theorem ofRun_parenDepth (limit : Nat) (doc : Option String) (run : List Token) :
    (ofRun limit doc run).parenDepth = openParens run := by
  induction run using List.reverseRecOn with
  | nil => rfl
  | append_singleton run t ih =>
      rw [← ofRun_concat, add_parenDepth, openParens_concat, ih]

theorem ofRun_doc (limit : Nat) (doc : Option String) (run : List Token) :
    (ofRun limit doc run).doc = doc := by
  induction run using List.reverseRecOn with
  | nil => rfl
  | append_singleton run t ih =>
      rw [← ofRun_concat, add]
      simp only
      split
      · exact ih
      · exact ih

theorem ofRun_overflowed {limit : Nat} (doc : Option String) {run : List Token}
    (h : run.length ≤ limit) : (ofRun limit doc run).overflowed = false := by
  rw [ofRun, foldl_add (by simpa using h)]

/-- A candidate with not too many tokens holds all of its run. -/
theorem ofRun_tokens {limit : Nat} {doc : Option String} {run : List Token}
    (h : (ofRun limit doc run).overflowed = false) : (ofRun limit doc run).tokens = run := by
  induction run using List.reverseRecOn with
  | nil => rfl
  | append_singleton run t ih =>
      rw [← ofRun_concat] at h ⊢
      unfold add at h ⊢
      simp only at h ⊢
      split at h
      · next hsize =>
        have ih := ih h
        rw [if_pos hsize, tokens, List.reverse_cons]
        exact congrArg (· ++ [t]) ih
      · cases h

/-- The candidate is made of a run. -/
def IsOfRun (limit : Nat) (c : Candidate) : Prop := ∃ doc run, c = ofRun limit doc run

theorem IsOfRun.empty (limit : Nat) : IsOfRun limit {} := ⟨none, [], rfl⟩

end Candidate

namespace Recognizer

variable {g : Grammar} {r : Recognizer} {t : Token}

theorem extend_parenDepth :
    (r.extend g t).candidate.parenDepth = Candidate.depthAfter r.candidate.parenDepth t := by
  unfold extend
  split
  · exact Candidate.add_parenDepth _ _ _
  · exact Candidate.add_parenDepth _ _ _

/-- A token that is passed over opens and closes no parenthesis. -/
theorem observe_parenDepth :
    (r.observe g t).candidate.parenDepth = Candidate.depthAfter r.candidate.parenDepth t := by
  cases hk : t.kind with
  | blank | newline | lineComment | endOfInput =>
      simp [observe, hk, Candidate.depthAfter, Token.isPunct]
  | blockComment =>
      cases he : r.candidate.isEmpty <;>
        simp [observe, hk, he, Candidate.depthAfter, Token.isPunct]
  | _ => simp [observe, hk, extend_parenDepth]

end Recognizer

/-! ## The candidates of a scan -/

/-- Every candidate that the recognizer holds is made of a run. -/
structure Recognizer.HoldsRuns (limit : Nat) (r : Recognizer) : Prop where
  candidate : r.candidate.IsOfRun limit
  suspended : ∀ w ∈ r.suspended, w.candidate.IsOfRun limit

namespace Recognizer.HoldsRuns

variable {g : Grammar} {source : String} {r : Recognizer} {t : Token}

theorem boundary {suspended : List Suspended} {limit : Nat}
    (h : ∀ w ∈ suspended, w.candidate.IsOfRun limit) :
    (Recognizer.boundary suspended).HoldsRuns limit := ⟨.empty limit, h⟩

theorem extend (h : r.HoldsRuns g.maxCandidateTokens) :
    (r.extend g t).HoldsRuns g.maxCandidateTokens := by
  refine ⟨?_, by rw [extend_suspended]; exact h.suspended⟩
  obtain ⟨doc, run, hrun⟩ := h.candidate
  rw [Recognizer.extend, hrun]
  split
  · exact ⟨_, run ++ [t], by rw [Candidate.ofRun_withDoc, Candidate.ofRun_concat]⟩
  · exact ⟨doc, run ++ [t], Candidate.ofRun_concat _ _ _ _⟩

theorem observe (h : r.HoldsRuns g.maxCandidateTokens) :
    (r.observe g t).HoldsRuns g.maxCandidateTokens := by
  rcases observe_cases g r t with heq | ⟨-, heq⟩ | heq
  · rwa [heq]
  · rw [heq]
    exact ⟨h.candidate, h.suspended⟩
  · rw [heq]
    exact h.extend

theorem openBrace (h : r.HoldsRuns g.maxCandidateTokens) (tracker : ScopeTracker) :
    (r.openBrace g source tracker).2.HoldsRuns g.maxCandidateTokens := by
  refine boundary fun w hw => ?_
  split at hw
  · rcases List.mem_cons.mp hw with rfl | hw
    · exact h.candidate
    · exact h.suspended w hw
  · exact h.suspended w hw

theorem closeBrace {limit : Nat} (h : r.HoldsRuns limit) (closed : Option Nat) :
    (r.closeBrace closed).HoldsRuns limit := by
  unfold Recognizer.closeBrace
  cases closed with
  | none => exact boundary h.suspended
  | some depth =>
      simp only
      split
      · exact boundary (by simp)
      · next w outer hw =>
        have hwaiting : ∀ v ∈ w :: outer, v.candidate.IsOfRun limit := fun v hv =>
          h.suspended v ((List.dropWhile_sublist _).subset (hw ▸ hv))
        split
        · exact ⟨hwaiting w List.mem_cons_self,
            fun v hv => hwaiting v (List.mem_cons_of_mem _ hv)⟩
        · exact boundary hwaiting

theorem semicolon (h : r.HoldsRuns g.maxCandidateTokens) (tracker : ScopeTracker) :
    (r.semicolon g source tracker t).2.HoldsRuns g.maxCandidateTokens := by
  unfold Recognizer.semicolon
  split
  · exact h.observe
  · exact boundary h.suspended

end Recognizer.HoldsRuns

namespace Scan

variable {g : Grammar} {source : String} {s : Scan} {t : Token}

theorem feed_holdsRuns (h : s.recognizer.HoldsRuns g.maxCandidateTokens) :
    (s.feed g source t).recognizer.HoldsRuns g.maxCandidateTokens := by
  rcases t.structural_cases with ho | hc | hs | hp
  · rw [feed_recognizer_of_opening ho]
    exact h.openBrace _
  · rw [feed_recognizer_of_closing hc]
    exact h.closeBrace _
  · rw [feed_recognizer_of_semicolon hs]
    exact h.semicolon _
  · rw [feed_recognizer_of_plain hp]
    exact h.observe

theorem run_holdsRuns (h : s.recognizer.HoldsRuns g.maxCandidateTokens) (ts : List Token) :
    (run g source ts s).recognizer.HoldsRuns g.maxCandidateTokens := by
  induction ts generalizing s with
  | nil => exact h
  | cons t ts ih => exact ih (feed_holdsRuns h)

/-- **Every candidate of a scan is made of a run.** -/
theorem run_candidate (g : Grammar) (source : String) (ts : List Token) :
    ∃ doc tokens, (run g source ts {}).recognizer.candidate =
      .ofRun g.maxCandidateTokens doc tokens :=
  (run_holdsRuns ⟨.empty _, by simp⟩ ts).candidate

end Scan

end DeclTags
