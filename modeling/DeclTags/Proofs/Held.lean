import DeclTags.Proofs.Headers
import DeclTags.Proofs.Nesting
import Mathlib.Data.List.Flatten

set_option autoImplicit false

/-! # The tokens that a recognizer holds

Between two tokens a recognizer holds the tokens of the suspended candidates, the outermost first,
and then those of its own candidate (`Recognizer.held`). A token is added at the end or passed over,
and tokens are dropped, so what is held is always a sublist of what was fed
(`Scan.run_held_sublist`). A symbol gets its name from the candidate, which is dropped right then
(`Scan.feed_held_of_symbol`); so a symbol that is reported later has its name from a candidate that
is suspended now, or from a token that is still to come (`Scan.reported_span`).
-/

open scoped List

namespace DeclTags

namespace Recognizer

/-- The tokens of the suspended candidates, the outermost first. -/
def suspendedTokens (r : Recognizer) : List Token :=
  r.suspended.reverse.flatMap (·.candidate.tokens)

/-- The tokens of the suspended candidates and of the candidate, oldest first. -/
def held (r : Recognizer) : List Token := r.suspendedTokens ++ r.candidate.tokens

variable {g : Grammar} {source : String} {r : Recognizer} {t : Token}

theorem suspendedTokens_sublist (r : Recognizer) : r.suspendedTokens <+ r.held :=
  List.sublist_append_left _ _

theorem held_boundary (suspended : List Suspended) :
    (boundary suspended).held = suspended.reverse.flatMap (·.candidate.tokens) :=
  List.append_nil _

theorem tokens_add_sublist (limit : Nat) (t : Token) (c : Candidate) :
    (c.add limit t).tokens <+ c.tokens ++ [t] := by
  unfold Candidate.add
  simp only
  split
  · exact List.reverse_cons ▸ List.Sublist.refl _
  · exact List.sublist_append_left _ _

theorem extend_held_sublist : (r.extend g t).held <+ r.held ++ [t] := by
  unfold extend held suspendedTokens
  rw [List.append_assoc]
  split
  · exact (List.append_sublist_append_left _).mpr (tokens_add_sublist _ _ _)
  · exact (List.append_sublist_append_left _).mpr (tokens_add_sublist _ _ _)

theorem observe_held_sublist : (r.observe g t).held <+ r.held ++ [t] := by
  rcases observe_cases g r t with h | ⟨-, h⟩ | h
  · rw [h]
    exact List.sublist_append_left _ _
  · rw [h]
    exact List.sublist_append_left _ _
  · rw [h]
    exact extend_held_sublist

theorem openBrace_held_sublist (tracker : ScopeTracker) :
    (r.openBrace g source tracker).2.held <+ r.held := by
  rw [openBrace, held_boundary]
  split
  · rw [List.reverse_cons, List.flatMap_append, List.flatMap_singleton]
    exact List.Sublist.refl _
  · exact r.suspendedTokens_sublist

/-- A closing brace keeps some of the outermost of the suspended candidates. -/
theorem closeBrace_held_sublist (closed : Option Nat) :
    (r.closeBrace closed).held <+ r.suspendedTokens := by
  unfold closeBrace
  cases closed with
  | none => exact held_boundary _ ▸ List.Sublist.refl _
  | some depth =>
      have hdrop : (r.suspended.dropWhile fun s => depth < s.depth).reverse.flatMap
          (·.candidate.tokens) <+ r.suspendedTokens :=
        (List.dropWhile_sublist _).reverse.flatMap _
      simp only
      split
      · exact List.nil_sublist _
      · -- taken up or left waiting, the tokens of `w` stand behind those further out
        next w outer hw =>
        rw [hw, List.reverse_cons, List.flatMap_append, List.flatMap_singleton] at hdrop
        split
        · exact hdrop
        · rwa [held_boundary, List.reverse_cons, List.flatMap_append, List.flatMap_singleton]

theorem semicolon_held_sublist (tracker : ScopeTracker) :
    (r.semicolon g source tracker t).2.held <+ r.held ++ [t] := by
  rw [semicolon]
  split
  · exact observe_held_sublist
  · rw [held_boundary]
    exact r.suspendedTokens_sublist.trans (List.sublist_append_left _ _)

end Recognizer

namespace Scan

variable {g : Grammar} {source : String} {s : Scan} {t : Token} {a b : Symbol}

/-- A token is held at the end, or not at all. -/
theorem feed_held_sublist :
    (s.feed g source t).recognizer.held <+ s.recognizer.held ++ [t] := by
  rcases t.structural_cases with ho | hc | hs | hp
  · rw [feed_recognizer_of_opening ho]
    exact (Recognizer.openBrace_held_sublist _).trans (List.sublist_append_left _ _)
  · rw [feed_recognizer_of_closing hc]
    exact ((Recognizer.closeBrace_held_sublist _).trans
      (Recognizer.suspendedTokens_sublist _)).trans (List.sublist_append_left _ _)
  · rw [feed_recognizer_of_semicolon hs]
    exact Recognizer.semicolon_held_sublist _
  · rw [feed_recognizer_of_plain hp]
    exact Recognizer.observe_held_sublist

/-- What is held was held before or fed since, in that order. -/
theorem run_held_sublist (ts : List Token) :
    (run g source ts s).recognizer.held <+ s.recognizer.held ++ ts := by
  induction ts generalizing s with
  | nil => exact List.sublist_append_left _ _
  | cons t ts ih =>
      have hstep : (s.feed g source t).recognizer.held ++ ts <+ s.recognizer.held ++ [t] ++ ts :=
        feed_held_sublist.append (List.Sublist.refl _)
      rw [List.append_cons]
      exact ih.trans hstep

/-- A `{` or `;` outside of parentheses drops the candidate. -/
theorem feed_held_of_dropped (ht : t.isPunct '{' = true ∨ t.isPunct ';' = true)
    (hparen : s.recognizer.inParenGroup = false) :
    (s.feed g source t).recognizer.held = s.recognizer.suspendedTokens := by
  have hnot : ¬s.recognizer.inParenGroup = true := Bool.eq_false_iff.mp hparen
  rcases ht with ho | hs
  · rw [feed_recognizer_of_opening ho, Recognizer.openBrace, if_neg hnot,
      Recognizer.held_boundary]
    rfl
  · rw [feed_recognizer_of_semicolon hs, Recognizer.semicolon, if_neg hnot,
      Recognizer.held_boundary]
    rfl

/-- Where a symbol is reported, its name is in the candidate, and the candidate is dropped. -/
theorem feed_held_of_symbol (h : s.symbol? g source t = some a) :
    (s.feed g source t).recognizer.held = s.recognizer.suspendedTokens ∧
      ∃ n ∈ s.recognizer.candidate.tokens, a.span = .ofToken n := by
  obtain ⟨d, hd, ha⟩ := Option.bind_eq_some_iff.mp h
  rcases decision?_cases hd with ⟨ho, rfl⟩ | ⟨hs, hparen, hd⟩
  · obtain ⟨hdepth, hspan⟩ := Candidate.atBrace_span ha
    exact ⟨feed_held_of_dropped (.inl ho) (by simp [Recognizer.inParenGroup, hdepth]), hspan⟩
  · exact ⟨feed_held_of_dropped (.inr hs) hparen, Candidate.atSemicolon?_span hd ha⟩

/-- A symbol has its name from what is held, or from a token that is still to come. -/
theorem reported_span {ts : List Token} (h : b ∈ reported g source ts s) :
    ∃ n ∈ s.recognizer.held ++ ts, b.span = .ofToken n := by
  induction ts generalizing s with
  | nil => cases h
  | cons t ts ih =>
      rw [reported_cons, List.mem_append] at h
      rcases h with h | h
      · obtain ⟨n, hn, hspan⟩ := (feed_held_of_symbol (Option.mem_toList.mp h)).2
        exact ⟨n, List.mem_append_left _ (List.mem_append_right _ hn), hspan⟩
      · obtain ⟨n, hn, hspan⟩ := ih h
        refine ⟨n, ?_, hspan⟩
        rw [List.append_cons]
        exact (feed_held_sublist.append (List.Sublist.refl ts)).subset hn

end Scan

end DeclTags
