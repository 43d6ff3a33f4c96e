import DeclTags.Profile.Builtin
import DeclTags.Proofs.Braces
import DeclTags.Proofs.Nesting
import Mathlib.Data.List.Basic

set_option autoImplicit false

/-! # Blocks are transparent

A block is an opening brace, balanced tokens and a closing brace. Whatever stands in it, a scan
comes out of it with the scopes and the suspended candidates with which it went in, and with its
candidate if that was inside of parentheses (`Recognizer.afterBlock`). So the suspended candidates
are at any time those that the open braces interrupt (`suspended_eq_interrupted`).

A decision depends on the tracker only through its outline, the open scopes without the indices of
their symbols. Two scans with the same recognizer and outline decide alike from there on
(`Alike.decisions_eq`), so what is decided behind a block does not depend on what stands in it.
-/

namespace DeclTags

/-! ## Inside of a block -/

/-- The recognizer behind a block that begins at `r`. -/
def Recognizer.afterBlock (r : Recognizer) : Recognizer where
  candidate := if 0 < r.candidate.parenDepth then r.candidate else {}
  pendingDoc := none
  suspended := r.suspended

namespace Scan

variable {g : Grammar} {source : String} {s : Scan}

/-- An opening brace adds to the scopes and to the suspended candidates. -/
theorem feed_opening_suffix {o : Token} (ho : o.isPunct '{' = true) :
    s.tracker.scopes <:+ (s.feed g source o).tracker.scopes ∧
      s.recognizer.suspended <:+ (s.feed g source o).recognizer.suspended := by
  rw [feed_tracker_of_opening ho, feed_recognizer_of_opening ho,
    Recognizer.openBrace_suspended, ScopeTracker.push_scopes]
  refine ⟨List.suffix_cons _ _, ?_⟩
  split
  · exact List.suffix_cons _ _
  · exact List.suffix_refl _

/-- A closing brace undoes what the opening brace did to the scopes and to the recognizer, provided
that these are now as that brace left them. -/
theorem feed_closing_of_entered {o c : Token} {m : Scan} (h : s.Aligned)
    (ho : o.isPunct '{' = true) (hc : c.isPunct '}' = true)
    (hscopes : m.tracker.scopes = (s.feed g source o).tracker.scopes)
    (hsuspended : m.recognizer.suspended = (s.feed g source o).recognizer.suspended) :
    (m.feed g source c).tracker.scopes = s.tracker.scopes ∧
      (m.feed g source c).recognizer = s.recognizer.afterBlock := by
  rw [feed_tracker_of_opening ho, ScopeTracker.push_scopes] at hscopes
  rw [feed_recognizer_of_opening ho, Recognizer.openBrace_suspended] at hsuspended
  constructor
  · rw [feed_tracker_of_closing hc, ScopeTracker.pop?_scopes, hscopes, List.tail_cons]
  · rw [feed_recognizer_of_closing hc, ScopeTracker.pop?_depth, hscopes, List.head?_cons,
      Option.map_some]
    by_cases hp : 0 < s.recognizer.candidate.parenDepth
    · -- the candidate was suspended at the opening brace
      rw [if_pos (by simpa [Recognizer.inParenGroup] using hp)] at hsuspended
      rw [Recognizer.closeBrace_of_waiting hsuspended, Recognizer.afterBlock, if_pos hp]
    · -- nothing was suspended, and what was before waits for scopes further out
      rw [if_neg (by simpa [Recognizer.inParenGroup] using hp)] at hsuspended
      have hbelow : ∀ w ∈ m.recognizer.suspended, w.depth < s.tracker.depth := by
        rw [hsuspended, h.depth_eq]
        exact h.open_scopes
      rw [Recognizer.closeBrace_of_below hbelow, hsuspended, Recognizer.afterBlock, if_neg hp]
      rfl

/-- Balanced tokens leave the scopes and the suspended candidates as they were. -/
theorem run_balanced (g : Grammar) (source : String) {ts : List Token} (hb : Balanced ts)
    (h : s.Aligned) :
    (run g source ts s).tracker.scopes = s.tracker.scopes ∧
      (run g source ts s).recognizer.suspended = s.recognizer.suspended := by
  induction hb generalizing s with
  | nil => exact ⟨rfl, rfl⟩
  | @plain t ts ht _ ih =>
      obtain ⟨h1, h2⟩ := ih h.feed
      rw [run_cons, h1, h2, feed_tracker_of_not_isBrace ht, feed_suspended_of_not_isBrace ht]
      exact ⟨rfl, rfl⟩
  | @block o c inner rest ho hc _ _ ihi ihr =>
      -- up to its closing brace, over that, and on from there
      obtain ⟨hi1, hi2⟩ := ihi (h.feed_opening ho)
      obtain ⟨hc1, hc2⟩ := feed_closing_of_entered h ho hc hi1 hi2
      obtain ⟨hr1, hr2⟩ := ihr (((h.feed_opening ho).run inner).feed_closing hc)
      rw [List.cons_append, run_cons, run_append, run_cons, hr1, hr2, hc1, hc2]
      exact ⟨rfl, rfl⟩

/-- A block leaves the scopes as they were, and the recognizer behind it is known. -/
theorem run_block (g : Grammar) (source : String) {o c : Token} {inner : List Token}
    (ho : o.isPunct '{' = true) (hc : c.isPunct '}' = true) (hb : Balanced inner)
    (h : s.Aligned) :
    (run g source (o :: inner ++ [c]) s).tracker.scopes = s.tracker.scopes ∧
      (run g source (o :: inner ++ [c]) s).recognizer = s.recognizer.afterBlock := by
  obtain ⟨h1, h2⟩ := run_balanced g source hb (h.feed_opening ho)
  rw [run_append, run_cons, run_cons, run_nil]
  exact feed_closing_of_entered h ho hc h1 h2

/-- On the way through balanced tokens the scopes and the suspended candidates at their beginning
stay below whatever is added. -/
theorem run_part_of_balanced {ts part : List Token} (hb : Balanced ts) (hp : part <+: ts)
    (h : s.Aligned) :
    s.tracker.scopes <:+ (run g source part s).tracker.scopes ∧
      s.recognizer.suspended <:+ (run g source part s).recognizer.suspended := by
  induction hb generalizing s part with
  | nil =>
      obtain rfl := List.prefix_nil.mp hp
      exact ⟨List.suffix_refl _, List.suffix_refl _⟩
  | @plain t ts ht _ ih =>
      rcases List.prefix_cons_iff.mp hp with rfl | ⟨part, rfl, htail⟩
      · exact ⟨List.suffix_refl _, List.suffix_refl _⟩
      · have hs : (s.feed g source t).Aligned := h.feed
        have := ih htail hs
        rwa [feed_tracker_of_not_isBrace ht, feed_suspended_of_not_isBrace ht] at this
  | @block o c inner rest ho hc hi _ ihi ihr =>
      rcases List.prefix_cons_iff.mp hp with rfl | ⟨part, rfl, htail⟩
      · exact ⟨List.suffix_refl _, List.suffix_refl _⟩
      · have hs : (s.feed g source o).Aligned := h.feed_opening ho
        have hopen : s.tracker.scopes <:+ (s.feed g source o).tracker.scopes ∧
            s.recognizer.suspended <:+ (s.feed g source o).recognizer.suspended :=
          feed_opening_suffix ho
        rw [run_cons]
        rcases List.prefix_or_prefix_of_prefix htail (List.prefix_append inner (c :: rest)) with
          hin | ⟨part, rfl⟩
        · obtain ⟨h1, h2⟩ := ihi hin hs
          exact ⟨hopen.1.trans h1, hopen.2.trans h2⟩
        · obtain ⟨h1, h2⟩ := run_balanced g source hi hs
          rcases List.prefix_cons_iff.mp ((List.prefix_append_right_inj inner).mp htail) with
            rfl | ⟨part, rfl, hrest⟩
          · rw [List.append_nil, h1, h2]
            exact hopen
          · -- the block is behind, and has left everything as it was
            have hout : ((run g source inner (s.feed g source o)).feed g source c).Aligned :=
              (hs.run inner).feed_closing hc
            obtain ⟨hc1, hc2⟩ := feed_closing_of_entered h ho hc h1 h2
            obtain ⟨hr1, hr2⟩ := ihr hrest hout
            rw [hc1] at hr1
            rw [hc2] at hr2
            rw [run_append, run_cons]
            exact ⟨hr1, hr2⟩

/-! ## What waits for a brace -/

/-- The candidate that a brace interrupts behind the tokens, if it stands in parentheses. -/
def waiting? (g : Grammar) (source : String) (ts : List Token) : Option Suspended :=
  let s := run g source ts {}
  if s.recognizer.inParenGroup then some ⟨s.tracker.depth, s.recognizer.candidate⟩ else none

/-- The candidates that the open braces interrupt, innermost first. -/
def interrupted (g : Grammar) (source : String) (ts : List Token) : List Suspended :=
  (unclosed ts).reverse.filterMap fun p => waiting? g source (ts.take p.2)

/-- What an open brace interrupts does not depend on the tokens behind it. -/
theorem waiting_append (ts us : List Token) :
    ((unclosed ts).reverse.filterMap fun p => waiting? g source ((ts ++ us).take p.2)) =
      interrupted g source ts := by
  refine List.filterMap_congr fun p hp => ?_
  have hlt : p.2 < ts.length :=
    List.snd_lt_of_mem_zipIdx (List.mem_of_mem_filter (List.mem_reverse.mp hp))
  rw [List.take_append_of_le_length (Nat.le_of_lt hlt)]

theorem interrupted_concat_opening (ts : List Token) {o : Token} (ho : o.isPunct '{' = true) :
    interrupted g source (ts ++ [o]) =
      (waiting? g source ts).toList ++ interrupted g source ts := by
  rw [interrupted, unclosed_concat_opening _ ho, List.reverse_concat, List.filterMap_cons,
    waiting_append, List.take_left]
  cases waiting? g source ts <;> rfl

/-- Tokens behind which the same braces are open interrupt nothing. -/
theorem interrupted_append_of_unclosed_eq {ts us : List Token}
    (h : unclosed (ts ++ us) = unclosed ts) :
    interrupted g source (ts ++ us) = interrupted g source ts := by
  rw [interrupted, h, waiting_append]

/-- A block interrupts nothing behind it. -/
theorem unclosed_append_block (before : List Token) {o c : Token} {inner : List Token}
    (ho : o.isPunct '{' = true) (hc : c.isPunct '}' = true) (hb : Balanced inner) :
    unclosed (before ++ (o :: inner ++ [c])) = unclosed before := by
  rw [← List.append_assoc, unclosed_concat_closing _ hc, unclosed_of_balanced _ ho hb,
    List.dropLast_concat]

/-- **What is suspended** are the candidates that the open braces interrupt: each waits for the
brace that interrupts it, from where this stands to where it is closed. -/
theorem suspended_eq_interrupted (g : Grammar) (source : String) (ts : List Token) :
    (run g source ts {}).recognizer.suspended = interrupted g source ts := by
  induction ts using brace_induction with
  | nil => rfl
  | opening ts o ho ih =>
      rw [run_append, run_cons, run_nil, feed_recognizer_of_opening ho,
        Recognizer.openBrace_suspended, ih ts (Nat.le_refl _), interrupted_concat_opening _ ho,
        waiting?]
      split <;> rfl
  | plain ts t ht ih =>
      rw [run_append, run_cons, run_nil, feed_suspended_of_not_isBrace ht, ih ts (Nat.le_refl _),
        interrupted_append_of_unclosed_eq (unclosed_concat_plain _ ht)]
  | closing ts c hc ih =>
      cases hk : openStack ts with
      | nil =>
          -- no brace is open, so nothing waits, and nothing is taken up
          have hu : unclosed ts = [] := unclosed_eq_nil_iff.mpr hk
          have hw : (run g source ts {}).recognizer.suspended = [] := by
            rw [ih ts (Nat.le_refl _), interrupted, hu]
            rfl
          have hs : (run g source ts {}).Aligned := Aligned.init.run ts
          rw [run_append, run_cons, run_nil, interrupted, unclosed_concat_closing _ hc, hu]
          rcases hs.closing_cases g source hc with ⟨scope, outer, w, rest, -, hr, -⟩ | ⟨-, hr⟩
          · rw [hw] at hr
            cases hr
          · rw [hr, hw]
            rfl
      | cons i rest =>
          -- the brace ends a block, which leaves what waits before it
          obtain ⟨before, o, inner, rfl, ho, hb, -, -⟩ := exists_of_openStack_eq_cons hk
          have hs : (run g source before {}).Aligned := Aligned.init.run before
          have hafter := (run_block g source ho hc hb hs).2
          rw [List.append_assoc, run_append, hafter,
            interrupted_append_of_unclosed_eq (unclosed_append_block before ho hc hb),
            ← ih before (by simp)]
          rfl

/-- **A closing brace** without a partner leaves nothing to go on with. One with a partner ends a
block, behind which the candidate from before it is taken up, if it stands in parentheses. -/
theorem run_closing_cases (g : Grammar) (source : String) (ts : List Token) {c : Token}
    (hc : c.isPunct '}' = true) :
    (unclosed ts = [] ∧ (run g source (ts ++ [c]) {}).recognizer = .boundary []) ∨
    ∃ before o inner, ts = before ++ o :: inner ∧ o.isPunct '{' = true ∧ Balanced inner ∧
      (run g source (ts ++ [c]) {}).recognizer =
        (run g source before {}).recognizer.afterBlock := by
  cases hk : openStack ts with
  | nil =>
      have hu : unclosed ts = [] := unclosed_eq_nil_iff.mpr hk
      have hw : (run g source ts {}).recognizer.suspended = [] := by
        rw [suspended_eq_interrupted, interrupted, hu]
        rfl
      have hs : (run g source ts {}).Aligned := Aligned.init.run ts
      refine .inl ⟨hu, ?_⟩
      rw [run_append, run_cons, run_nil]
      rcases hs.closing_cases g source hc with ⟨_, _, _, _, -, hr, -⟩ | ⟨-, hr⟩
      · rw [hw] at hr
        cases hr
      · rw [hr, hw]
  | cons i rest =>
      obtain ⟨before, o, inner, rfl, ho, hb, -, -⟩ := exists_of_openStack_eq_cons hk
      have hs : (run g source before {}).Aligned := Aligned.init.run before
      refine .inr ⟨before, o, inner, rfl, ho, hb, ?_⟩
      rw [List.append_assoc, run_append]
      exact (run_block g source ho hc hb hs).2

end Scan

/-! ## Outlines -/

/-- The opener without the index of its symbol. -/
def Opener.unindexed : Opener → Opener
  | .declaration name _ => .declaration name 0
  | .type name _ => .type name none
  | opener => opener

@[simp] theorem Opener.segment?_unindexed (o : Opener) : o.unindexed.segment? = o.segment? := by
  cases o <;> rfl

@[simp] theorem Opener.isClassLike_unindexed (o : Opener) :
    o.unindexed.isClassLike = o.isClassLike := by
  cases o <;> rfl

def Scope.unindexed (s : Scope) : Scope := { s with opener := s.opener.unindexed }

namespace ScopeTracker

variable {t u : ScopeTracker}

/-- The tracker without the indices of symbols and without the counts. -/
def outline (t : ScopeTracker) : ScopeTracker where
  scopes := t.scopes.map Scope.unindexed

@[simp] theorem outline_depth : t.outline.depth = t.depth := by
  rw [depth, outline, depth]
  cases t.scopes <;> rfl

@[simp] theorem outline_path : t.outline.path = t.path := by
  rw [path, outline, ← List.map_reverse, List.filterMap_map]
  exact List.filterMap_congr fun s _ => Opener.segment?_unindexed s.opener

@[simp] theorem outline_enclosingType? : t.outline.enclosingType? = t.enclosingType? := by
  have hp : ((fun s : Scope => s.opener.isClassLike) ∘ Scope.unindexed) =
      fun s => s.opener.isClassLike := funext fun s => Opener.isClassLike_unindexed s.opener
  rw [enclosingType?, outline, List.find?_map, hp, enclosingType?]
  cases t.scopes.find? (·.opener.isClassLike) with
  | none => rfl
  | some s => cases hs : s.opener <;> simp [hs, Scope.unindexed, Opener.unindexed]

@[simp] theorem outline_directlyInType : t.outline.directlyInType = t.directlyInType := by
  rw [directlyInType, current?, outline, List.head?_map, directlyInType, current?]
  cases t.scopes.head? with
  | none => rfl
  | some s => cases hs : s.opener <;> simp [hs, Scope.unindexed, Opener.unindexed]

theorem push_outline (opener : Opener) (line offset : Nat) :
    (t.push opener line offset).outline =
      { scopes := ⟨t.outline.depth, opener.unindexed, line, offset⟩ :: t.outline.scopes } := by
  rw [outline_depth]
  rfl

theorem pop?_outline :
    ((t.pop?).elim t (·.2)).outline = { scopes := t.outline.scopes.tail } := by
  rw [outline, pop?_scopes, outline, List.map_tail]

end ScopeTracker

/-! ## What is decided behind a block -/

namespace Candidate

variable {g : Grammar} {source : String} {t : ScopeTracker}

@[simp] theorem callableDecision_outline (c : Candidate) (withBody : Bool) (run : List Token) :
    c.callableDecision g source t.outline withBody run =
      c.callableDecision g source t withBody run := by
  simp only [callableDecision, ScopeTracker.outline_path, ScopeTracker.outline_enclosingType?]

theorem atBrace_outline (c : Candidate) :
    c.atBrace g source t.outline = c.atBrace g source t := by
  simp only [atBrace, typeDecision?, callableDecision_outline, ScopeTracker.outline_path]

theorem atSemicolon?_outline (c : Candidate) :
    c.atSemicolon? g source t.outline = c.atSemicolon? g source t := by
  have hm : c.mayBeMember g t.outline = c.mayBeMember g t := by
    rw [mayBeMember, mayBeMember, ScopeTracker.outline_directlyInType]
  rw [atSemicolon?, hm, atSemicolon?]
  simp only [callableDecision_outline]

end Candidate

theorem openerOf_unindexed (d : Decision) (m n : Nat) :
    (Scan.openerOf m d).unindexed = (Scan.openerOf n d).unindexed := by
  cases d <;> rfl

namespace Scan

/-- The recognizers are the same, and so are the outlines of the scopes. -/
def Alike (s u : Scan) : Prop :=
  s.recognizer = u.recognizer ∧ s.tracker.outline = u.tracker.outline

namespace Alike

variable {g : Grammar} {source : String} {s u : Scan}

theorem atBrace_eq (h : Alike s u) (c : Candidate) :
    c.atBrace g source s.tracker = c.atBrace g source u.tracker := by
  rw [← Candidate.atBrace_outline, h.2, Candidate.atBrace_outline]

theorem semicolon_eq (h : Alike s u) (t : Token) :
    s.recognizer.semicolon g source s.tracker t = u.recognizer.semicolon g source u.tracker t := by
  have hc : ∀ c : Candidate,
      c.atSemicolon? g source s.tracker = c.atSemicolon? g source u.tracker := fun c => by
    rw [← Candidate.atSemicolon?_outline, h.2, Candidate.atSemicolon?_outline]
  rw [h.1, Recognizer.semicolon, hc, Recognizer.semicolon]

/-- Scans that are alike decide alike. -/
theorem decision?_eq (h : Alike s u) (t : Token) :
    s.decision? g source t = u.decision? g source t := by
  rcases t.structural_cases with ho | hc | hs | hp
  · rw [decision?_of_opening ho, decision?_of_opening ho, h.1, h.atBrace_eq]
  · rw [decision?_of_closing hc, decision?_of_closing hc]
  · rw [decision?_of_semicolon hs, decision?_of_semicolon hs, h.semicolon_eq]
  · rw [decision?_of_plain hp, decision?_of_plain hp]

/-- An opening brace leaves alike scans alike: it adds scopes of the same depth and kind. -/
theorem feed_opening (h : Alike s u) {t : Token} (ht : t.isPunct '{' = true) :
    Alike (s.feed g source t) (u.feed g source t) := by
  have hd : s.tracker.depth = u.tracker.depth := by
    rw [← ScopeTracker.outline_depth, h.2, ScopeTracker.outline_depth]
  constructor
  · rw [feed_recognizer_of_opening ht, feed_recognizer_of_opening ht, h.1, Recognizer.openBrace,
      Recognizer.openBrace, hd]
  · have hopener : (s.opener g source).unindexed = (u.opener g source).unindexed := by
      rw [opener, opener, Recognizer.openBrace, Recognizer.openBrace, h.1, h.atBrace_eq]
      exact openerOf_unindexed _ _ _
    rw [feed_tracker_of_opening ht, feed_tracker_of_opening ht, ScopeTracker.push_outline,
      ScopeTracker.push_outline, hopener, h.2]

theorem feed_closing (h : Alike s u) {t : Token} (ht : t.isPunct '}' = true) :
    Alike (s.feed g source t) (u.feed g source t) := by
  have hd : s.tracker.pop?.map (·.1.depth) = u.tracker.pop?.map (·.1.depth) := by
    have hmap : ∀ v : Scan, v.tracker.pop?.map (·.1.depth) =
        v.tracker.outline.scopes.head?.map Scope.depth := fun v => by
      rw [ScopeTracker.pop?_depth, ScopeTracker.outline, List.head?_map, Option.map_map]
      rfl
    rw [hmap, h.2, ← hmap]
  constructor
  · rw [feed_recognizer_of_closing ht, feed_recognizer_of_closing ht, h.1, hd]
  · rw [feed_tracker_of_closing ht, feed_tracker_of_closing ht, ScopeTracker.pop?_outline,
      ScopeTracker.pop?_outline, h.2]

/-- Scans that are alike stay so. -/
theorem feed (h : Alike s u) (t : Token) : Alike (s.feed g source t) (u.feed g source t) := by
  rcases t.structural_cases with ho | hc | hs | hp
  · exact h.feed_opening ho
  · exact h.feed_closing hc
  · have hb := Token.not_isBrace_of_semicolon hs
    refine ⟨?_, by rw [feed_tracker_of_not_isBrace hb, feed_tracker_of_not_isBrace hb, h.2]⟩
    rw [feed_recognizer_of_semicolon hs, feed_recognizer_of_semicolon hs, h.semicolon_eq]
  · have hb := Token.not_isBrace_of_not_structural hp
    refine ⟨?_, by rw [feed_tracker_of_not_isBrace hb, feed_tracker_of_not_isBrace hb, h.2]⟩
    rw [feed_recognizer_of_plain hp, feed_recognizer_of_plain hp, h.1]

/-- Scans that are alike decide alike from there on. -/
theorem decisions_eq (h : Alike s u) (ts : List Token) :
    decisions g source ts s = decisions g source ts u := by
  induction ts generalizing s u with
  | nil => rfl
  | cons t ts ih => rw [decisions, decisions, h.decision?_eq, ih (h.feed t)]

end Alike

/-- Behind two blocks with the same braces, what stands in them makes no difference. -/
theorem alike_behind_block {o c : Token} {inner inner' : List Token} {s : Scan} {g : Grammar}
    {source : String} (ho : o.isPunct '{' = true) (hc : c.isPunct '}' = true)
    (hb : Balanced inner) (hb' : Balanced inner') (h : s.Aligned) :
    Alike (run g source (o :: inner ++ [c]) s) (run g source (o :: inner' ++ [c]) s) := by
  obtain ⟨hs, hr⟩ := run_block g source ho hc hb h
  obtain ⟨hs', hr'⟩ := run_block g source ho hc hb' h
  exact ⟨hr.trans hr'.symm, by rw [ScopeTracker.outline, hs, ScopeTracker.outline, hs']⟩

/-- **Blocks are transparent**: balanced tokens between braces, after any tokens, leave the scopes
and the suspended candidates as they were; they leave the candidate if it was in parentheses, and
none otherwise. Up to each token of the block, the suspended candidates are those that the open
braces interrupt. What is decided behind the block does not depend on what stands in it. -/
theorem block_transparent (g : Grammar) (source : String) (before inner : List Token)
    {o c : Token} (ho : o.isPunct '{' = true) (hc : c.isPunct '}' = true)
    (hb : Balanced inner) :
    let s := run g source before {}
    let e := run g source (o :: inner ++ [c]) s
    e.tracker.scopes = s.tracker.scopes ∧
    e.recognizer.suspended = s.recognizer.suspended ∧
    e.recognizer.candidate =
      (if 0 < s.recognizer.candidate.parenDepth then s.recognizer.candidate else {}) ∧
    (∀ part, part <+: inner →
      (s.feed g source o).recognizer.suspended <:+
        (run g source (o :: part) s).recognizer.suspended ∧
      (run g source (o :: part) s).recognizer.suspended =
        interrupted g source (before ++ o :: part)) ∧
    ∀ inner', Balanced inner' → ∀ after,
      decisions g source after (run g source (o :: inner' ++ [c]) s) =
        decisions g source after e := by
  intro s e
  have hs : s.Aligned := Aligned.init.run before
  obtain ⟨hscopes, hr⟩ : e.tracker.scopes = s.tracker.scopes ∧
      e.recognizer = s.recognizer.afterBlock := run_block g source ho hc hb hs
  refine ⟨hscopes, by rw [hr]; rfl, by rw [hr]; rfl, fun part hp => ⟨?_, ?_⟩, ?_⟩
  · exact (run_part_of_balanced hb hp (hs.feed_opening ho)).2
  · rw [← suspended_eq_interrupted, run_append]
  · intro inner' hb' after
    exact (alike_behind_block ho hc hb' hb hs).decisions_eq after

/-- The punctuation `c` at the beginning of a text. -/
def punct (c : Char) : Token := ⟨.punctuation c, c.toString, 0, c.utf8Size, 1, 1, true⟩

/-- A block in parentheses, with a parenthesis in it that nothing closes. -/
theorem block_transparent_in_parens :
    let inner := [punct '(', punct ';', punct '{', punct '}']
    let s := run (.ofProfile .java) "" [punct '('] {}
    Balanced inner ∧
      (run (.ofProfile .java) "" (punct '{' :: inner ++ [punct '}']) s).recognizer.candidate =
        s.recognizer.candidate ∧ s.recognizer.candidate.back = [punct '('] := by
  intro inner s
  have hb : Balanced inner := by decide
  have ht := block_transparent (.ofProfile .java) "" [punct '('] inner
    (o := punct '{') (c := punct '}') (by decide) (by decide) hb
  have hp : 0 < s.recognizer.candidate.parenDepth := by decide
  exact ⟨hb, ht.2.2.1.trans (if_pos hp), by decide⟩

end Scan

end DeclTags
