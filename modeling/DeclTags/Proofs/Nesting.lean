import DeclTags.Proofs.Feed

set_option autoImplicit false

/-! # Scopes and suspended candidates

The invariant of a scan between two tokens: the open scopes are numbered from the outermost one, and
the candidates that wait for a scope to close belong to different open scopes, the innermost first
(`Scan.Aligned`). Every token keeps it (`Scan.Aligned.feed`), so it holds after every run.

From it follows what a closing brace does to the suspended candidates: it never drops one, and takes
one up only if it waits for just the scope that is closed (`Recognizer.closeBrace_of_waiting`,
`Recognizer.closeBrace_of_below`).
-/

namespace DeclTags

/-! ## Numbered scopes -/

/-- The scopes, innermost first, carry the number of scopes around them. -/
def Numbered : List Scope → Prop
  | [] => True
  | scope :: outer => scope.depth = outer.length ∧ Numbered outer

namespace ScopeTracker

theorem depth_eq_length {t : ScopeTracker} (h : Numbered t.scopes) :
    t.depth = t.scopes.length := by
  unfold depth
  cases hs : t.scopes with
  | nil => rfl
  | cons scope outer =>
      have hd : scope.depth = outer.length := (hs ▸ h : Numbered (scope :: outer)).1
      show scope.depth + 1 = _
      rw [hd, List.length_cons]

theorem push_scopes (t : ScopeTracker) (opener : Opener) (line offset : Nat) :
    (t.push opener line offset).scopes = ⟨t.depth, opener, line, offset⟩ :: t.scopes := rfl

theorem numbered_push {t : ScopeTracker} (h : Numbered t.scopes) (opener : Opener)
    (line offset : Nat) : Numbered (t.push opener line offset).scopes :=
  ⟨depth_eq_length h, h⟩

theorem pop?_scopes {t : ScopeTracker} :
    ((t.pop?).elim t (·.2)).scopes = t.scopes.tail := by
  unfold pop?
  cases hs : t.scopes <;> simp [hs]

theorem pop?_depth {t : ScopeTracker} :
    t.pop?.map (·.1.depth) = t.scopes.head?.map Scope.depth := by
  unfold pop?
  cases hs : t.scopes <;> simp

theorem numbered_tail {scopes : List Scope} (h : Numbered scopes) : Numbered scopes.tail := by
  cases scopes with
  | nil => exact h
  | cons scope outer => exact h.2

end ScopeTracker

/-! ## What the recognizer does with suspended candidates -/

namespace Recognizer

variable {g : Grammar} {source : String} {r : Recognizer} {t : Token}

@[simp] theorem extend_suspended : (r.extend g t).suspended = r.suspended := by
  unfold extend
  split <;> rfl

/-- A token without structure is passed over, kept as a comment, or added to the candidate. -/
theorem observe_cases (g : Grammar) (r : Recognizer) (t : Token) :
    r.observe g t = r ∨
      (r.candidate.isEmpty = true ∧ r.observe g t = { r with pendingDoc := some t.text }) ∨
      r.observe g t = r.extend g t := by
  cases hk : t.kind with
  | blockComment => cases he : r.candidate.isEmpty <;> simp [observe, hk, he]
  | _ => simp [observe, hk]

@[simp] theorem observe_suspended : (r.observe g t).suspended = r.suspended := by
  rcases observe_cases g r t with h | ⟨-, h⟩ | h
  · rw [h]
  · rw [h]
  · rw [h, extend_suspended]

@[simp] theorem semicolon_suspended (tracker : ScopeTracker) :
    (r.semicolon g source tracker t).2.suspended = r.suspended := by
  unfold semicolon
  split
  · exact observe_suspended
  · rfl

theorem openBrace_suspended (tracker : ScopeTracker) :
    (r.openBrace g source tracker).2.suspended =
      if r.inParenGroup then ⟨tracker.depth, r.candidate⟩ :: r.suspended else r.suspended := rfl

/-- Closing the scope that the innermost suspended candidate waits for takes it up. -/
theorem closeBrace_of_waiting {depth : Nat} {candidate : Candidate} {outer : List Suspended}
    (h : r.suspended = ⟨depth, candidate⟩ :: outer) :
    r.closeBrace (some depth) = { candidate, suspended := outer } := by
  have hdrop : r.suspended.dropWhile (fun s => depth < s.depth) = ⟨depth, candidate⟩ :: outer := by
    rw [h, List.dropWhile_cons_of_neg (by simp)]
  simp [closeBrace, hdrop, boundary]

/-- Closing a scope inside of all that the suspended candidates wait for leaves them alone. -/
theorem closeBrace_of_below {depth : Nat} (h : ∀ w ∈ r.suspended, w.depth < depth) :
    r.closeBrace (some depth) = boundary r.suspended := by
  cases hs : r.suspended with
  | nil => simp [closeBrace, hs]
  | cons w outer =>
      have hw : w.depth < depth := h w (hs ▸ List.mem_cons_self)
      have hdrop : (w :: outer).dropWhile (fun s => depth < s.depth) = w :: outer :=
        List.dropWhile_cons_of_neg (by simp only [decide_eq_true_eq]; omega)
      simp [closeBrace, hs, hdrop, Nat.ne_of_lt hw]

end Recognizer

/-! ## The invariant -/

namespace Scan

/-- Only braces change what is suspended. -/
theorem feed_suspended_of_not_isBrace {g : Grammar} {source : String} {s : Scan} {t : Token}
    (h : t.isBrace = false) :
    (s.feed g source t).recognizer.suspended = s.recognizer.suspended := by
  obtain ⟨ho, hc⟩ := Token.not_isPunct_of_not_isBrace h
  cases hs : t.isPunct ';' with
  | true => rw [feed_recognizer_of_semicolon hs, Recognizer.semicolon_suspended]
  | false =>
      have hp : t.isStructural = false := by simp [Token.isStructural, h, hs]
      rw [feed_recognizer_of_plain hp, Recognizer.observe_suspended]

/-- The scopes are numbered, and the suspended candidates wait for different open scopes, the
innermost first. -/
structure Aligned (s : Scan) : Prop where
  numbered : Numbered s.tracker.scopes
  nested : s.recognizer.suspended.Pairwise (fun inner outer => outer.depth < inner.depth)
  open_scopes : ∀ w ∈ s.recognizer.suspended, w.depth < s.tracker.scopes.length

namespace Aligned

variable {g : Grammar} {source : String} {s : Scan} {t : Token}

theorem init : Aligned {} := ⟨trivial, .nil, by simp⟩

theorem depth_eq (h : s.Aligned) : s.tracker.depth = s.tracker.scopes.length :=
  ScopeTracker.depth_eq_length h.numbered

/-- Behind the innermost scope everything waits for a scope further out. -/
theorem tail_lt (h : s.Aligned) {w : Suspended} {outer : List Suspended}
    (hs : s.recognizer.suspended = w :: outer) : ∀ v ∈ outer, v.depth < w.depth :=
  (List.pairwise_cons.mp (hs ▸ h.nested)).1

/-- Nothing is suspended where no scope is open. -/
theorem suspended_eq_nil (h : s.Aligned) (hs : s.tracker.scopes = []) :
    s.recognizer.suspended = [] := by
  rw [List.eq_nil_iff_forall_not_mem]
  intro w hw
  have := h.open_scopes w hw
  simp [hs] at this

/-- **A closing brace** either ends the scope that the innermost suspended candidate waits for,
and takes it up, or leaves all of them waiting. -/
theorem closing_cases (h : s.Aligned) (g : Grammar) (source : String) (ht : t.isPunct '}' = true) :
    (∃ scope outer candidate rest, s.tracker.scopes = scope :: outer ∧
      s.recognizer.suspended = ⟨scope.depth, candidate⟩ :: rest ∧
      (s.feed g source t).recognizer = { candidate, suspended := rest }) ∨
    ((∀ w ∈ s.recognizer.suspended, w.depth < s.tracker.scopes.tail.length) ∧
      (s.feed g source t).recognizer = .boundary s.recognizer.suspended) := by
  rw [feed_recognizer_of_closing ht, ScopeTracker.pop?_depth]
  cases hs : s.tracker.scopes with
  | nil =>
      refine Or.inr ⟨by simp [h.suspended_eq_nil hs], ?_⟩
      simp [Recognizer.closeBrace]
  | cons scope outer =>
      have hd : scope.depth = outer.length := (hs ▸ h.numbered : Numbered (scope :: outer)).1
      rw [List.head?_cons, Option.map_some, List.tail_cons]
      -- whatever is suspended waits for this scope or for one around it
      cases hw : s.recognizer.suspended with
      | nil => exact Or.inr ⟨by simp, hw ▸ Recognizer.closeBrace_of_below (by simp [hw])⟩
      | cons w rest =>
          have hle : w.depth < outer.length + 1 := by
            have := h.open_scopes w (hw ▸ List.mem_cons_self)
            rwa [hs] at this
          by_cases heq : w.depth = scope.depth
          · refine Or.inl ⟨scope, outer, w.candidate, rest, rfl, by rw [← heq], ?_⟩
            exact Recognizer.closeBrace_of_waiting (by rw [hw, ← heq])
          · have hbelow : ∀ v ∈ w :: rest, v.depth < outer.length := by
              intro v hv
              rcases List.mem_cons.mp hv with rfl | hv
              · omega
              · have := h.tail_lt hw v hv
                omega
            refine Or.inr ⟨hbelow, ?_⟩
            rw [← hw] at hbelow ⊢
            exact Recognizer.closeBrace_of_below (hd ▸ hbelow)

theorem feed_opening (h : s.Aligned) (ho : t.isPunct '{' = true) :
    (s.feed g source t).Aligned := by
  have hd := h.depth_eq
  -- a candidate that is suspended now waits for the new scope, the others for those around it
  have hlt : ∀ w ∈ (s.feed g source t).recognizer.suspended, w.depth ≤ s.tracker.depth := by
    rw [feed_recognizer_of_opening ho, Recognizer.openBrace_suspended]
    intro w hw
    split at hw
    · rcases List.mem_cons.mp hw with rfl | hw
      · exact Nat.le_refl _
      · exact hd ▸ Nat.le_of_lt (h.open_scopes w hw)
    · exact hd ▸ Nat.le_of_lt (h.open_scopes w hw)
  refine ⟨?_, ?_, ?_⟩
  · rw [feed_tracker_of_opening ho]
    exact ScopeTracker.numbered_push h.numbered _ _ _
  · rw [feed_recognizer_of_opening ho, Recognizer.openBrace_suspended]
    split
    · exact List.pairwise_cons.mpr ⟨hd ▸ h.open_scopes, h.nested⟩
    · exact h.nested
  · rw [feed_tracker_of_opening ho, ScopeTracker.push_scopes, List.length_cons]
    exact fun w hw => Nat.lt_succ_of_le (hd ▸ hlt w hw)

theorem feed_closing (h : s.Aligned) (hc : t.isPunct '}' = true) :
    (s.feed g source t).Aligned := by
  have hs : (s.feed g source t).tracker.scopes = s.tracker.scopes.tail := by
    rw [feed_tracker_of_closing hc, ScopeTracker.pop?_scopes]
  have hn : Numbered (s.feed g source t).tracker.scopes :=
    hs ▸ ScopeTracker.numbered_tail h.numbered
  rcases h.closing_cases g source hc with
    ⟨scope, outer, candidate, rest, hscopes, hw, hr⟩ | ⟨hbelow, hr⟩
  · have hd : scope.depth = outer.length := (hscopes ▸ h.numbered : Numbered (scope :: outer)).1
    refine ⟨hn, ?_, ?_⟩
    · rw [hr]
      exact (List.pairwise_cons.mp (hw ▸ h.nested)).2
    · rw [hr, hs, hscopes, List.tail_cons, ← hd]
      exact h.tail_lt hw
  · refine ⟨hn, ?_, ?_⟩
    · rw [hr]
      exact h.nested
    · rw [hr, hs]
      exact hbelow

/-- One token keeps the invariant. -/
theorem feed (h : s.Aligned) : (s.feed g source t).Aligned := by
  cases hb : t.isBrace with
  | true =>
      rcases (Bool.or_eq_true _ _).mp hb with ho | hc
      · exact h.feed_opening ho
      · exact h.feed_closing hc
  | false =>
      have ht : (s.feed g source t).tracker = s.tracker := feed_tracker_of_not_isBrace hb
      have hr : (s.feed g source t).recognizer.suspended = s.recognizer.suspended :=
        feed_suspended_of_not_isBrace hb
      refine ⟨ht ▸ h.numbered, hr ▸ h.nested, ?_⟩
      rw [ht, hr]
      exact h.open_scopes

/-- A run keeps the invariant. -/
theorem run (h : s.Aligned) (ts : List Token) : (Scan.run g source ts s).Aligned := by
  induction ts generalizing s with
  | nil => exact h
  | cons t ts ih => exact ih h.feed

end Aligned

end Scan

end DeclTags
