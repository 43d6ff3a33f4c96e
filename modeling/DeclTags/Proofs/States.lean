import DeclTags.Proofs.Lookback

set_option autoImplicit false

/-! # States of a recognizer

The state of a recognizer says whether there is a candidate, and whether a parenthesis is open in it.
It can be read off the candidate's tokens and parentheses alone, because a candidate that counts a
parenthesis, or too many tokens, has a token (`Candidate.IsOf.not_empty_of_parenDepth`,
`Candidate.IsOf.not_overflowed`). A recognizer that notes its state only where it gets a token or
passes a boundary always has the right one noted (`Recognizer.notedState_eq`), and what it keeps for
later fits it: a comment waits for the first token, and a candidate that was interrupted has an open
parenthesis (`Recognizer.Defers`).
-/

namespace DeclTags

open Candidate (openParens)

/-! ## Candidates without a token -/

namespace Candidate

variable {limit : Nat} {run : List Token} {c : Candidate}

theorem isEmpty_iff : c.isEmpty = true ↔ c.tokens = [] := by
  rw [isEmpty, tokens, List.isEmpty_iff, List.reverse_eq_nil_iff]

namespace IsOf

/-- A candidate has no token only if none was observed for it. -/
theorem eq_nil_of_tokens (h : c.IsOf limit run) (hlimit : 0 < limit) (hempty : c.tokens = []) :
    run = [] := by
  rw [h.keepsFirst.tokens, List.take_eq_nil_iff] at hempty
  exact hempty.resolve_left (Nat.ne_of_gt hlimit)

/-- Without a token there are not too many. -/
theorem not_overflowed (h : c.IsOf limit run) (hlimit : 0 < limit) (hempty : c.tokens = []) :
    c.overflowed = false := by
  refine Bool.eq_false_iff.mpr fun hflow => ?_
  have hlt := h.keepsFirst.overflowed.mp hflow
  rw [h.eq_nil_of_tokens hlimit hempty] at hlt
  exact absurd hlt (Nat.not_lt_zero limit)

/-- A parenthesis is open only in a candidate with a token. -/
theorem not_empty_of_parenDepth (h : c.IsOf limit run) (hlimit : 0 < limit)
    (hopen : 0 < c.parenDepth) : c.tokens ≠ [] := by
  intro hempty
  rw [h.keepsFirst.parenDepth, h.eq_nil_of_tokens hlimit hempty] at hopen
  exact absurd hopen (Nat.lt_irrefl 0)

end IsOf

end Candidate

namespace Recognizer

variable {g : Grammar} {source : String} {r : Recognizer} {limit : Nat} {run : List Token}

/-! ## The state of a candidate -/

theorem inParenGroup_iff : r.inParenGroup = true ↔ 0 < r.candidate.parenDepth := by
  rw [inParenGroup, decide_eq_true_eq]

theorem state_of_empty (h : r.candidate.IsOf limit run) (hlimit : 0 < limit)
    (hempty : r.candidate.tokens = []) : r.state = .idle := by
  rw [state, Candidate.isEmpty_iff.mpr hempty, h.not_overflowed hlimit hempty]
  rfl

theorem state_of_not_empty (hempty : r.candidate.tokens ≠ []) :
    r.state = if r.inParenGroup then .awaitingParenClose else .accumulating := by
  rw [state, Bool.eq_false_iff.mpr (mt Candidate.isEmpty_iff.mp hempty)]
  rfl

/-- **Idle is a recognizer without tokens.** -/
theorem state_eq_idle_iff (h : r.candidate.IsOf limit run) (hlimit : 0 < limit) :
    r.state = .idle ↔ r.candidate.tokens = [] := by
  refine ⟨fun hidle => ?_, state_of_empty h hlimit⟩
  by_contra hempty
  rw [state_of_not_empty hempty] at hidle
  split at hidle <;> cases hidle

/-- **What awaits a parenthesis is in a group.** -/
theorem state_eq_awaitingParenClose_iff (h : r.candidate.IsOf limit run) (hlimit : 0 < limit) :
    r.state = .awaitingParenClose ↔ r.inParenGroup = true := by
  by_cases hempty : r.candidate.tokens = []
  · rw [state_of_empty h hlimit hempty, inParenGroup_iff]
    exact iff_of_false nofun fun hopen => h.not_empty_of_parenDepth hlimit hopen hempty
  · rw [state_of_not_empty hempty]
    split
    · next hopen => exact iff_of_true rfl hopen
    · next hopen => exact iff_of_false nofun hopen

theorem state_eq_accumulating_iff (h : r.candidate.IsOf limit run) (hlimit : 0 < limit) :
    r.state = .accumulating ↔ r.candidate.tokens ≠ [] ∧ r.inParenGroup = false := by
  rw [ne_eq, ← state_eq_idle_iff h hlimit, ← Bool.not_eq_true,
    ← state_eq_awaitingParenClose_iff h hlimit]
  cases r.state <;> simp

/-! ## What is kept for later -/

/-- A comment waits for the first token, and a candidate waits only if a parenthesis is open in
it. -/
structure Defers (r : Recognizer) : Prop where
  pendingDoc : r.pendingDoc.isSome = true → r.candidate.isEmpty = true
  suspended : ∀ w ∈ r.suspended, 0 < w.candidate.parenDepth

namespace Defers

theorem boundary {suspended : List Suspended} (h : ∀ w ∈ suspended, 0 < w.candidate.parenDepth) :
    (Recognizer.boundary suspended).Defers := ⟨nofun, h⟩

theorem init : ({} : Recognizer).Defers := ⟨nofun, fun _ hw => absurd hw List.not_mem_nil⟩

/-- The first token takes the comment. -/
theorem extend (h : r.Defers) (t : Token) : (r.extend g t).Defers := by
  refine ⟨fun hdoc => ?_, by rw [extend_suspended]; exact h.suspended⟩
  unfold Recognizer.extend at hdoc
  split at hdoc
  · cases hdoc
  · next hempty => exact absurd (h.pendingDoc hdoc) hempty

theorem observe (h : r.Defers) (t : Token) : (r.observe g t).Defers := by
  rcases observe_cases g r t with heq | ⟨hempty, heq⟩ | heq
  · rwa [heq]
  · rw [heq]
    exact ⟨fun _ => hempty, h.suspended⟩
  · rw [heq]
    exact h.extend t

theorem openBrace (h : r.Defers) (g : Grammar) (source : String) (tracker : ScopeTracker) :
    (r.openBrace g source tracker).2.Defers := by
  refine boundary fun w hw => ?_
  split at hw
  · next hopen =>
    rcases List.mem_cons.mp hw with rfl | hw
    · exact inParenGroup_iff.mp hopen
    · exact h.suspended w hw
  · exact h.suspended w hw

/-- Behind a closing brace there is either no candidate or one that was interrupted. -/
theorem closeBrace_cases (h : r.Defers) (closed : Option Nat) :
    (r.closeBrace closed).Defers ∧
      ((r.closeBrace closed).candidate = {} ∨ 0 < (r.closeBrace closed).candidate.parenDepth) := by
  unfold Recognizer.closeBrace
  cases closed with
  | none => exact ⟨boundary h.suspended, Or.inl rfl⟩
  | some depth =>
      simp only
      split
      · exact ⟨boundary nofun, Or.inl rfl⟩
      · next w outer hw =>
        have hwaiting : ∀ v ∈ w :: outer, 0 < v.candidate.parenDepth := fun v hv =>
          h.suspended v ((List.dropWhile_sublist _).subset (hw ▸ hv))
        split
        · have houter := fun v hv => hwaiting v (List.mem_cons_of_mem w hv)
          exact ⟨⟨nofun, houter⟩, Or.inr (hwaiting w List.mem_cons_self)⟩
        · exact ⟨boundary hwaiting, Or.inl rfl⟩

theorem semicolon (h : r.Defers) (g : Grammar) (source : String) (tracker : ScopeTracker)
    (t : Token) : (r.semicolon g source tracker t).2.Defers := by
  unfold Recognizer.semicolon
  split
  · exact h.observe t
  · exact boundary h.suspended

/-- Whatever a recognizer is told of, it keeps nothing else for later. -/
theorem handle (h : r.Defers) (g : Grammar) (source : String) (e : Event) :
    (r.handle g source e).2.Defers := by
  cases e with
  | token t => exact h.observe t
  | openBrace tracker => exact h.openBrace g source tracker
  | closeBrace closed => exact (h.closeBrace_cases closed).1
  | semicolon t tracker => exact h.semicolon g source tracker t

theorem handleAll (h : r.Defers) (g : Grammar) (source : String) (events : List Event) :
    (r.handleAll g source events).2.Defers := by
  induction events generalizing r with
  | nil => exact h
  | cons e events ih => exact ih (h.handle g source e)

end Defers

/-! ## The noted state -/

/-- Whether the state is noted behind an event. It is not where a token is passed over. -/
def notes (r : Recognizer) : Event → Bool
  | .token t => codeTokens [t] ≠ []
  | .semicolon t _ => !r.inParenGroup || codeTokens [t] ≠ []
  | .openBrace _ | .closeBrace _ => true

/-- The state that was noted last in a run, if it was `noted` before. -/
def notedState (g : Grammar) (source : String) (r : Recognizer) (noted : RecognizerState) :
    List Event → RecognizerState
  | [] => noted
  | e :: events =>
    let after := (r.handle g source e).2
    notedState g source after (if r.notes e then after.state else noted) events

/-- A token that is passed over leaves the state as it is. -/
theorem observe_state {t : Token} (h : codeTokens [t] = []) :
    (r.observe g t).state = r.state := by
  rw [codeTokens_singleton, ite_eq_left_iff] at h
  by_cases hend : t.kind = .endOfInput
  · simp [observe, hend]
  have hfiller : t.isFiller = true := by
    by_contra hcode
    exact absurd (h (by simp [hcode, hend])) (List.cons_ne_nil t [])
  rw [observe_of_isFiller g r hfiller]
  split <;> rfl

theorem handle_state (g : Grammar) (source : String) {e : Event} (h : r.notes e = false) :
    (r.handle g source e).2.state = r.state := by
  cases e with
  | token t => exact observe_state (by simpa [notes] using h)
  | semicolon t tracker =>
      simp only [notes, Bool.or_eq_false_iff, Bool.not_eq_false', decide_eq_false_iff_not,
        not_not] at h
      rw [handle, semicolon, if_pos h.1]
      exact observe_state h.2
  | openBrace tracker => cases h
  | closeBrace closed => cases h

/-- **The state that was noted last is the state.** -/
theorem notedState_eq (g : Grammar) (source : String) (r : Recognizer) (events : List Event) :
    r.notedState g source r.state events = (r.handleAll g source events).2.state := by
  induction events generalizing r with
  | nil => rfl
  | cons e events ih =>
      rw [notedState, handleAll]
      split
      · exact ih _
      · next hpassed =>
        rw [← handle_state g source (Bool.eq_false_iff.mpr hpassed)]
        exact ih _

/-! ## Runs -/

/-- A semicolon inside of parentheses leaves them open; outside of them it is a boundary. -/
theorem semicolon_inParenGroup {t : Token} (ht : t.isPunct ';' = true) (tracker : ScopeTracker) :
    (r.semicolon g source tracker t).2.inParenGroup = r.inParenGroup := by
  rw [semicolon]
  cases hopen : r.inParenGroup with
  | true =>
      have hsame : Candidate.depthAfter r.candidate.parenDepth t = r.candidate.parenDepth := by
        rw [Candidate.depthAfter, Token.not_isPunct_of_ne ht (by decide),
          Token.not_isPunct_of_ne ht (by decide)]
        rfl
      rw [if_pos rfl, inParenGroup, observe_parenDepth, hsame]
      exact hopen
  | false => rfl

/-- **The state of a recognizer says what it holds**, whatever it was told of, in any order and with
any scopes around. It is the state noted last, it is read off the tokens and the open parentheses,
and it fits what is kept for later. Behind a `{` it is idle, behind a `}` it is not accumulating, and
a `;` is a boundary unless a parenthesis is open. -/
theorem state_of_handleAll {p : Profile} (h : Grammar.compile p = .ok g) (source : String)
    (events : List Event) :
    let r := (({} : Recognizer).handleAll g source events).2
    notedState g source {} .idle events = r.state ∧
    (r.state = .idle ↔ r.candidate.tokens = []) ∧
    (r.state = .awaitingParenClose ↔ r.inParenGroup = true) ∧
    (r.state = .accumulating ↔ r.candidate.tokens ≠ [] ∧ r.inParenGroup = false) ∧
    (r.inParenGroup = true → r.candidate.tokens ≠ []) ∧
    (r.pendingDoc.isSome = true → r.candidate.tokens = []) ∧
    (∀ w ∈ r.suspended, 0 < w.candidate.parenDepth) ∧
    (∀ tracker, (r.openBrace g source tracker).2.state = .idle) ∧
    (∀ closed, (r.closeBrace closed).state = .idle ∨
      (r.closeBrace closed).state = .awaitingParenClose) ∧
    (∀ t tracker, t.isPunct ';' = true → (r.semicolon g source tracker t).2.state =
      if r.state = .awaitingParenClose then .awaitingParenClose else .idle) := by
  intro r
  have hlimit : 0 < g.maxCandidateTokens := Grammar.Compiled.maxCandidateTokens_pos ⟨p, h⟩
  have hkeeps : r.Keeps g.maxCandidateTokens (observed events) := handleAll_keeps g source events
  have hdefers : r.Defers := Defers.init.handleAll g source events
  have hrun := hkeeps.current
  refine ⟨notedState_eq g source {} events, state_eq_idle_iff hrun hlimit,
    state_eq_awaitingParenClose_iff hrun hlimit, state_eq_accumulating_iff hrun hlimit,
    fun hopen => hrun.not_empty_of_parenDepth hlimit (inParenGroup_iff.mp hopen),
    fun hdoc => Candidate.isEmpty_iff.mp (hdefers.pendingDoc hdoc), hdefers.suspended,
    fun tracker => rfl, fun closed => ?closeBrace, fun t tracker ht => ?semicolon⟩
  case closeBrace =>
    rcases (hdefers.closeBrace_cases closed).2 with hnone | hopen
    · refine Or.inl ?_
      rw [state, hnone]
      rfl
    · have hafter := (hkeeps.closeBrace closed).current
      exact Or.inr ((state_eq_awaitingParenClose_iff hafter hlimit).mpr
        (inParenGroup_iff.mpr hopen))
  case semicolon =>
    have hafter : (r.semicolon g source tracker t).2.Keeps g.maxCandidateTokens
        ((observed events).after (.semicolon t tracker)) := hkeeps.semicolon tracker
    simp only [state_eq_awaitingParenClose_iff hrun hlimit]
    split
    · next hopen =>
      rw [state_eq_awaitingParenClose_iff hafter.current hlimit, semicolon_inParenGroup ht, hopen]
    · next hopen => rw [semicolon, if_neg hopen]; rfl

/-- Behind `f ( { x ; }` the interrupted call is taken up again: its parenthesis is open, and a
semicolon does not end it. -/
theorem state_of_interrupted_call :
    let g := Grammar.ofProfile .java
    let semicolon : Token := ⟨.punctuation ';', ";", 5, 6, 1, 6, true⟩
    let r := (({} : Recognizer).handleAll g "f({x;}" [
      .token ⟨.identifier, "f", 0, 1, 1, 1, true⟩,
      .token ⟨.punctuation '(', "(", 1, 2, 1, 2, true⟩,
      .openBrace {},
      .token ⟨.identifier, "x", 3, 4, 1, 4, true⟩,
      .semicolon semicolon {},
      .closeBrace (some 0)]).2
    Grammar.compile .java = .ok g ∧ r.inParenGroup = true ∧ semicolon.isPunct ';' = true ∧
      r.state = .awaitingParenClose ∧ r.candidate.tokens ≠ [] ∧ r.pendingDoc = none ∧
      (r.semicolon g "f({x;}" {} semicolon).2.state = .awaitingParenClose := by
  intro g semicolon r
  have hg : Grammar.compile .java = .ok g := by
    have hvalid : Profile.java.fault? = none := by decide +kernel
    rw [Grammar.compile, hvalid]
  have hopen : r.inParenGroup = true := by decide +kernel
  obtain ⟨-, -, hawaiting, -, hsome, hdoc, -, -, -, hsemicolon⟩ :=
    state_of_handleAll hg "f({x;}" _
  have hstate : r.state = .awaitingParenClose := hawaiting.mpr hopen
  refine ⟨hg, hopen, rfl, hstate, hsome hopen, ?_, ?_⟩
  · exact Option.not_isSome_iff_eq_none.mp fun h => hsome hopen (hdoc h)
  · exact (hsemicolon semicolon {} rfl).trans (if_pos hstate)

end Recognizer

end DeclTags
