import DeclTags.Proofs.Nesting
import Mathlib.Data.List.Infix
import Mathlib.Order.Bounds.Basic

set_option autoImplicit false

/-! # Calls of a tracker

A tracker is used by three calls: to open a scope, to close the innermost one, and to close all of
them. Which scopes are open behind some calls is said of the calls alone: those that were opened and
not closed since (`ScopeTracker.unclosed`), where a scope is closed as soon as all are, or as more
scopes were closed since than opened. This list grows and shrinks at its end
(`ScopeTracker.unclosed_concat_push`, `ScopeTracker.unclosed_concat_pop`), and a tracker keeps it,
with the depths and counts that belong to it (`ScopeTracker.Follows`).
-/

namespace DeclTags

/-- What opens a scope, and where. -/
structure Opening where
  opener : Opener
  line : Nat
  offset : Nat
  deriving DecidableEq, Repr

/-- The scope that is opened with so many scopes around it. -/
def Opening.scope (o : Opening) (depth : Nat) : Scope := ⟨depth, o.opener, o.line, o.offset⟩

namespace ScopeTracker

/-- A call of a tracker. -/
inductive Call where
  | push (opening : Opening)
  /-- A closing brace on a line. -/
  | pop (line : Nat)
  | closeAll
  deriving DecidableEq, Repr

/-- What a call gives back. -/
inductive Answer where
  /-- A scope is open now, with so many scopes around it. -/
  | opened (depth : Nat)
  | closed (scope : Scope)
  /-- There was no scope to close for the brace on this line. -/
  | unbalanced (line : Nat)
  /-- All scopes are closed, in this order. -/
  | allClosed (scopes : List Scope)
  deriving DecidableEq, Repr

/-- What a call gives back, and the tracker behind it. -/
def handle (t : ScopeTracker) : Call → Answer × ScopeTracker
  | .push o => (.opened t.depth, t.push o.opener o.line o.offset)
  | .pop line =>
    match t.pop? with
    | some (scope, after) => (.closed scope, after)
    | none => (.unbalanced line, t)
  | .closeAll => (.allClosed t.scopes, t.closeAll)

/-- A new tracker behind some calls. -/
def run (calls : List Call) : ScopeTracker := calls.foldl (fun t call => (t.handle call).2) {}

/-! ## What is not closed yet -/

def Call.isPush : Call → Bool
  | .push _ => true
  | _ => false

def Call.isPop : Call → Bool
  | .pop _ => true
  | _ => false

/-- At no place of the calls more scopes are closed, one by one, than they open there and `d` that
are open before them. -/
def NeverMore (d : Nat) (calls : List Call) : Prop :=
  ∀ before, before <+: calls → before.countP Call.isPop ≤ d + before.countP Call.isPush

/-- A scope that is opened right before the calls is not closed by them. -/
structure LeavesOpen (calls : List Call) : Prop where
  not_all : .closeAll ∉ calls
  never_more : NeverMore 0 calls

instance (d : Nat) (calls : List Call) : Decidable (NeverMore d calls) :=
  decidable_of_iff
    (∀ before ∈ calls.inits, before.countP Call.isPop ≤ d + before.countP Call.isPush)
    (by simp [NeverMore, List.mem_inits])

instance (calls : List Call) : Decidable (LeavesOpen calls) :=
  decidable_of_iff (.closeAll ∉ calls ∧ NeverMore 0 calls)
    ⟨fun h => ⟨h.1, h.2⟩, fun h => ⟨h.1, h.2⟩⟩

/-- What the calls open and do not close again, in order. -/
def unclosed : List Call → List Opening
  | [] => []
  | .push o :: calls => if LeavesOpen calls then o :: unclosed calls else unclosed calls
  | .pop _ :: calls | .closeAll :: calls => unclosed calls

/-- The number of scopes, open before the calls, that they close one by one if there are enough. -/
def closedAround : List Call → Nat
  | [] => 0
  | .push _ :: calls => closedAround calls - 1
  | .pop _ :: calls => closedAround calls + 1
  | .closeAll :: calls => closedAround calls

variable {d : Nat} {calls : List Call} {o : Opening}

/-- One more call in front is one more call in front of each beginning. -/
theorem neverMore_cons_iff {call : Call} :
    NeverMore d (call :: calls) ↔ ∀ before, before <+: calls →
      (call :: before).countP Call.isPop ≤ d + (call :: before).countP Call.isPush := by
  constructor
  · exact fun h before hb => h _ ((List.prefix_cons_inj call).mpr hb)
  · intro h before hb
    cases before with
    | nil => simp
    | cons first before =>
        obtain ⟨rfl, hbefore⟩ := List.cons_prefix_cons.mp hb
        exact h before hbefore

theorem neverMore_push : NeverMore d (.push o :: calls) ↔ NeverMore (d + 1) calls := by
  rw [neverMore_cons_iff]
  refine forall₂_congr fun before _ => ?_
  rw [List.countP_cons_of_neg (by simp [Call.isPop]),
    List.countP_cons_of_pos (by simp [Call.isPush])]
  omega

theorem neverMore_pop {line : Nat} :
    NeverMore (d + 1) (.pop line :: calls) ↔ NeverMore d calls := by
  rw [neverMore_cons_iff]
  refine forall₂_congr fun before _ => ?_
  rw [List.countP_cons_of_pos (by simp [Call.isPop]),
    List.countP_cons_of_neg (by simp [Call.isPush])]
  omega

theorem not_neverMore_zero_pop {line : Nat} : ¬NeverMore 0 (.pop line :: calls) := by
  intro h
  have hle := neverMore_cons_iff.mp h [] List.nil_prefix
  simp [Call.isPop, Call.isPush] at hle

theorem neverMore_closeAll : NeverMore d (.closeAll :: calls) ↔ NeverMore d calls := by
  rw [neverMore_cons_iff]
  refine forall₂_congr fun before _ => ?_
  rw [List.countP_cons_of_neg (by simp [Call.isPop]),
    List.countP_cons_of_neg (by simp [Call.isPush])]

theorem neverMore_iff : NeverMore d calls ↔ closedAround calls ≤ d := by
  induction calls generalizing d with
  | nil => exact iff_of_true (fun before hb => by simp [List.prefix_nil.mp hb]) (Nat.zero_le d)
  | cons call calls ih =>
      cases call with
      | push o =>
          rw [neverMore_push, ih, closedAround]
          omega
      | pop line =>
          cases d with
          | zero => exact iff_of_false not_neverMore_zero_pop (Nat.not_succ_le_zero _)
          | succ d => rw [neverMore_pop, ih, closedAround, Nat.add_le_add_iff_right]
      | closeAll => rw [neverMore_closeAll, ih, closedAround]

theorem leavesOpen_iff : LeavesOpen calls ↔ .closeAll ∉ calls ∧ closedAround calls = 0 := by
  rw [← Nat.le_zero, ← neverMore_iff]
  exact ⟨fun h => ⟨h.1, h.2⟩, fun h => ⟨h.1, h.2⟩⟩

/-! ## One more call -/

theorem closedAround_concat_push (calls : List Call) (o : Opening) :
    closedAround (calls ++ [.push o]) = closedAround calls := by
  induction calls with
  | nil => rfl
  | cons call calls ih => cases call <;> simp [closedAround, ih]

/-- One more scope is closed if none is open of those that were opened in between. -/
theorem closedAround_concat_pop (h : .closeAll ∉ calls) (line : Nat) :
    closedAround (calls ++ [.pop line]) =
      closedAround calls + if unclosed calls = [] then 1 else 0 := by
  induction calls with
  | nil => rfl
  | cons call calls ih =>
      have hrest : Call.closeAll ∉ calls := fun hmem => h (List.mem_cons_of_mem call hmem)
      cases call with
      | push o =>
          rw [List.cons_append, closedAround, closedAround, ih hrest, unclosed]
          -- the scope opened first is closed if one around the rest is
          by_cases hopen : closedAround calls = 0
          · rw [if_pos (leavesOpen_iff.mpr ⟨hrest, hopen⟩), if_neg (List.cons_ne_nil _ _)]
            split <;> omega
          · rw [if_neg fun hleaves => hopen (leavesOpen_iff.mp hleaves).2]
            omega
      | pop _ =>
          rw [List.cons_append, closedAround, closedAround, ih hrest, unclosed]
          omega
      | closeAll => exact absurd List.mem_cons_self h

/-- **What is opened is open.** -/
theorem unclosed_concat_push (calls : List Call) (o : Opening) :
    unclosed (calls ++ [.push o]) = unclosed calls ++ [o] := by
  induction calls with
  | nil => exact if_pos (by decide)
  | cons call calls ih =>
      cases call with
      | push first =>
          have hsame : LeavesOpen (calls ++ [.push o]) ↔ LeavesOpen calls := by
            simp [leavesOpen_iff, closedAround_concat_push]
          rw [List.cons_append, unclosed, unclosed, ih]
          simp only [hsame]
          split <;> rfl
      | pop _ => exact ih
      | closeAll => exact ih

/-- **The last scope that is open is closed**, if there is one. -/
theorem unclosed_concat_pop (calls : List Call) (line : Nat) :
    unclosed (calls ++ [.pop line]) = (unclosed calls).dropLast := by
  induction calls with
  | nil => rfl
  | cons call calls ih =>
      cases call with
      | push first =>
          rw [List.cons_append, unclosed, unclosed, ih]
          have hiff : LeavesOpen (calls ++ [.pop line]) ↔
              LeavesOpen calls ∧ unclosed calls ≠ [] := by
            simp only [leavesOpen_iff, List.mem_append, List.mem_singleton, reduceCtorEq, or_false]
            constructor
            · rintro ⟨hall, hnone⟩
              rw [closedAround_concat_pop hall] at hnone
              split at hnone
              · omega
              · next hne => exact ⟨⟨hall, hnone⟩, hne⟩
            · rintro ⟨⟨hall, hnone⟩, hne⟩
              rw [closedAround_concat_pop hall, if_neg hne, hnone]
              exact ⟨hall, rfl⟩
          by_cases hopen : LeavesOpen calls
          · rw [if_pos hopen]
            by_cases hnil : unclosed calls = []
            · rw [if_neg fun h => (hiff.mp h).2 hnil, hnil]
              rfl
            · rw [if_pos (hiff.mpr ⟨hopen, hnil⟩), List.dropLast_cons_of_ne_nil hnil]
          · rw [if_neg hopen, if_neg fun h => hopen (hiff.mp h).1]
      | pop _ => exact ih
      | closeAll => exact ih

/-- **Nothing is open behind a call that closes all.** -/
theorem unclosed_concat_closeAll (calls : List Call) : unclosed (calls ++ [.closeAll]) = [] := by
  induction calls with
  | nil => rfl
  | cons call calls ih =>
      cases call with
      | push first =>
          rw [List.cons_append, unclosed, if_neg fun h => h.not_all (by simp)]
          exact ih
      | pop _ => exact ih
      | closeAll => exact ih

/-! ## What a tracker keeps -/

/-- The scopes that are open behind the calls, outermost first: each has so many around it as stand
before it. -/
def openScopes (calls : List Call) : List Scope :=
  (unclosed calls).mapIdx fun depth o => o.scope depth

/-- The numbers of scopes that are open behind some of the calls. -/
def depths (calls : List Call) : Set Nat :=
  {n | ∃ before, before <+: calls ∧ (unclosed before).length = n}

theorem depths_concat (calls : List Call) (call : Call) :
    depths (calls ++ [call]) = insert (unclosed (calls ++ [call])).length (depths calls) := by
  ext n
  simp only [depths, List.prefix_concat_iff, Set.mem_insert_iff, Set.mem_ofPred_eq]
  constructor
  · rintro ⟨before, rfl | hp, hn⟩
    · exact Or.inl hn.symm
    · exact Or.inr ⟨before, hp, hn⟩
  · rintro (rfl | ⟨before, hp, hn⟩)
    · exact ⟨_, Or.inl rfl, rfl⟩
    · exact ⟨before, Or.inr hp, hn⟩

/-- The tracker has the scopes that are open behind the calls, and the counts that belong to
them. -/
structure Follows (t : ScopeTracker) (calls : List Call) : Prop where
  scopes : t.scopes.reverse = openScopes calls
  pushed : t.stats.pushed = calls.countP Call.isPush
  balance : t.stats.pushed =
    t.stats.popped + t.stats.forceClosed + (unclosed calls).length
  maxDepth : IsGreatest (depths calls) t.stats.maxDepth

namespace Follows

variable {t : ScopeTracker}

theorem init : Follows {} [] where
  scopes := rfl
  pushed := rfl
  balance := rfl
  maxDepth := ⟨⟨[], List.prefix_refl [], rfl⟩, by
    rintro n ⟨before, hp, rfl⟩
    rw [List.prefix_nil.mp hp]
    exact Nat.le_refl _⟩

/-- Behind the last scope that is open stand those around it. -/
theorem scopes_of_concat (h : t.Follows calls) {around : List Opening}
    (hopen : unclosed calls = around ++ [o]) :
    t.scopes = o.scope around.length ::
      (around.mapIdx fun depth o => o.scope depth).reverse := by
  have hscopes := h.scopes
  rw [openScopes, hopen, List.mapIdx_concat] at hscopes
  rw [← List.reverse_reverse t.scopes, hscopes, List.reverse_concat]

theorem scopes_of_nil (h : t.Follows calls) (hopen : unclosed calls = []) : t.scopes = [] := by
  have hscopes := h.scopes
  rw [openScopes, hopen] at hscopes
  exact List.reverse_eq_nil_iff.mp hscopes

theorem depth_eq (h : t.Follows calls) : t.depth = (unclosed calls).length := by
  rcases List.eq_nil_or_concat' (unclosed calls) with hopen | ⟨around, o, hopen⟩
  · rw [depth, h.scopes_of_nil hopen, hopen, List.length_nil]
  · rw [depth, h.scopes_of_concat hopen, hopen, List.length_append, List.length_singleton]
    rfl

/-- A call that opens nothing does not raise the greatest number of open scopes. -/
theorem maxDepth_concat (h : t.Follows calls) {call : Call}
    (hle : (unclosed (calls ++ [call])).length ≤ (unclosed calls).length) :
    IsGreatest (depths (calls ++ [call])) t.stats.maxDepth := by
  have hn : (unclosed calls).length ≤ t.stats.maxDepth :=
    h.maxDepth.2 ⟨calls, List.prefix_refl calls, rfl⟩
  rw [depths_concat, ← Nat.max_eq_right (Nat.le_trans hle hn)]
  exact h.maxDepth.insert _

theorem push (h : t.Follows calls) (o : Opening) :
    (t.handle (.push o)).2.Follows (calls ++ [.push o]) := by
  have hopen := unclosed_concat_push calls o
  refine ⟨?scopes, ?pushed, ?balance, ?maxDepth⟩
  case scopes =>
    rw [openScopes, hopen, List.mapIdx_concat, ← h.depth_eq, ← openScopes, ← h.scopes,
      ← List.reverse_cons]
    rfl
  case pushed =>
    rw [List.countP_append, ← h.pushed]
    rfl
  case balance =>
    rw [hopen, List.length_append, List.length_singleton, ← Nat.add_assoc]
    exact congrArg (· + 1) h.balance
  case maxDepth =>
    rw [depths_concat, hopen, List.length_append, List.length_singleton, ← h.depth_eq]
    show IsGreatest _ (max t.stats.maxDepth (t.depth + 1))
    rw [Nat.max_comm]
    exact h.maxDepth.insert _

theorem pop (h : t.Follows calls) (line : Nat) :
    (t.handle (.pop line)).2.Follows (calls ++ [.pop line]) := by
  have hdrop := unclosed_concat_pop calls line
  have hle : (unclosed (calls ++ [.pop line])).length ≤ (unclosed calls).length := by
    rw [hdrop, List.length_dropLast]
    exact Nat.sub_le _ _
  have hcount : (calls ++ [Call.pop line]).countP Call.isPush = calls.countP Call.isPush :=
    List.countP_append.trans (Nat.add_zero _)
  rcases List.eq_nil_or_concat' (unclosed calls) with hopen | ⟨around, o, hopen⟩
  · -- with no scope open the tracker stays as it is
    have hsame : (t.handle (.pop line)).2 = t := by
      rw [handle, pop?, h.scopes_of_nil hopen]
    rw [hsame]
    refine ⟨?_, ?_, ?_, h.maxDepth_concat hle⟩
    · rw [openScopes, hdrop, hopen, h.scopes, openScopes, hopen, List.dropLast_nil]
    · rw [hcount, h.pushed]
    · rw [hdrop, hopen, h.balance, hopen, List.dropLast_nil]
  · have hafter : (t.handle (.pop line)).2 =
        ⟨(around.mapIdx fun depth o => o.scope depth).reverse,
          { t.stats with popped := t.stats.popped + 1 }⟩ := by
      rw [handle, pop?, h.scopes_of_concat hopen]
    rw [hopen, List.dropLast_concat] at hdrop
    rw [hafter]
    refine ⟨?_, ?_, ?_, h.maxDepth_concat hle⟩
    · rw [openScopes, hdrop]
      exact List.reverse_reverse _
    · rw [hcount]
      exact h.pushed
    · have hbalance := h.balance
      rw [hopen, List.length_append, List.length_singleton] at hbalance
      rw [hdrop]
      show t.stats.pushed = t.stats.popped + 1 + t.stats.forceClosed + around.length
      omega

theorem closeAll (h : t.Follows calls) :
    (t.handle .closeAll).2.Follows (calls ++ [.closeAll]) := by
  have hnone := unclosed_concat_closeAll calls
  refine ⟨?_, ?_, ?_, h.maxDepth_concat (by simp [hnone])⟩
  · rw [openScopes, hnone]
    rfl
  · rw [List.countP_append, ← h.pushed]
    rfl
  · rw [hnone]
    show t.stats.pushed = t.stats.popped + (t.stats.forceClosed + t.depth) + 0
    rw [h.balance, h.depth_eq]
    omega

/-- A call keeps it. -/
theorem handle (h : t.Follows calls) (call : Call) :
    (t.handle call).2.Follows (calls ++ [call]) := by
  cases call with
  | push o => exact h.push o
  | pop line => exact h.pop line
  | closeAll => exact h.closeAll

end Follows

/-- **A new tracker follows its calls.** -/
theorem run_follows (calls : List Call) : (run calls).Follows calls := by
  induction calls using List.reverseRecOn with
  | nil => exact .init
  | append_singleton calls call ih =>
      rw [run, List.foldl_concat]
      exact ih.handle call

/-! ## What a tracker answers -/

namespace Follows

variable {t : ScopeTracker}

theorem map_opener (h : t.Follows calls) :
    t.scopes.reverse.map Scope.opener = (unclosed calls).map Opening.opener := by
  rw [h.scopes, openScopes]
  refine List.ext_getElem? fun i => ?_
  simp [Opening.scope, Function.comp_def]

/-- A closing brace closes the last scope that is open; with none open it changes nothing. -/
theorem handle_pop (h : t.Follows calls) (line : Nat) :
    unclosed calls = [] ∧ t.handle (.pop line) = (.unbalanced line, t) ∨
      ∃ around o, unclosed calls = around ++ [o] ∧
        (t.handle (.pop line)).1 = .closed (o.scope around.length) := by
  rcases List.eq_nil_or_concat' (unclosed calls) with hopen | ⟨around, o, hopen⟩
  · refine Or.inl ⟨hopen, ?_⟩
    rw [ScopeTracker.handle, pop?, h.scopes_of_nil hopen]
  · refine Or.inr ⟨around, o, hopen, ?_⟩
    rw [ScopeTracker.handle, pop?, h.scopes_of_concat hopen]

theorem path_eq (h : t.Follows calls) :
    t.path = (unclosed calls).filterMap fun o => o.opener.segment? := by
  have hmap := congrArg (List.filterMap Opener.segment?) h.map_opener
  rwa [List.filterMap_map, List.filterMap_map] at hmap

/-- The enclosing type is the named one in which nothing class-like is open. -/
theorem enclosingType?_eq_some_iff (h : t.Follows calls) (name : String) :
    t.enclosingType? = some name ↔ ∃ around symbol inside,
      (unclosed calls).map Opening.opener = around ++ .type name symbol :: inside ∧
        ∀ opener ∈ inside, opener.isClassLike = false := by
  have hfind : (t.scopes.find? (·.opener.isClassLike)).map Scope.opener =
      ((unclosed calls).map Opening.opener).reverse.find? Opener.isClassLike := by
    rw [← h.map_opener, ← List.map_reverse, List.reverse_reverse, List.find?_map]
    rfl
  have hname : t.enclosingType? = some name ↔
      ∃ symbol, ((unclosed calls).map Opening.opener).reverse.find? Opener.isClassLike =
        some (.type name symbol) := by
    rw [enclosingType?, hfind]
    split
    · next found hfound => simp [hfound]
    · next hother => simpa using fun symbol => hother name symbol
  simp only [hname, List.find?_eq_some_iff_append]
  constructor
  · rintro ⟨symbol, -, inside, around, hsplit, hinside⟩
    refine ⟨around.reverse, symbol, inside.reverse, ?_, fun opener hmem => ?_⟩
    · rw [← List.reverse_reverse ((unclosed calls).map Opening.opener), hsplit]
      simp
    · simpa using hinside opener (List.mem_reverse.mp hmem)
  · rintro ⟨around, symbol, inside, hsplit, hinside⟩
    refine ⟨symbol, rfl, inside.reverse, around.reverse, ?_, fun opener hmem => ?_⟩
    · rw [hsplit]
      simp
    · simpa using hinside opener (List.mem_reverse.mp hmem)

end Follows

/-- **A tracker has the scopes that its calls opened and did not close.** Behind any calls of a new
tracker its scopes are these, each with so many around it as were opened before it and are open
still. What the next call gives back, the path, the enclosing type and the counts are those of these
scopes, and the greatest depth is the greatest number of scopes that were open at once. -/
theorem run_keeps_unclosed (calls : List Call) :
    (run calls).scopes.reverse = openScopes calls ∧
    (run calls).depth = (unclosed calls).length ∧
    (∀ o, ((run calls).handle (.push o)).1 = .opened (unclosed calls).length) ∧
    (∀ line,
      unclosed calls = [] ∧ (run calls).handle (.pop line) = (.unbalanced line, run calls) ∨
      ∃ around o, unclosed calls = around ++ [o] ∧
        ((run calls).handle (.pop line)).1 = .closed (o.scope around.length)) ∧
    ((run calls).handle .closeAll).1 = .allClosed (openScopes calls).reverse ∧
    (run calls).path = (unclosed calls).filterMap (fun o => o.opener.segment?) ∧
    (∀ name, (run calls).enclosingType? = some name ↔ ∃ around symbol inside,
      (unclosed calls).map Opening.opener = around ++ .type name symbol :: inside ∧
        ∀ opener ∈ inside, opener.isClassLike = false) ∧
    (run calls).stats.pushed = calls.countP Call.isPush ∧
    (run calls).stats.pushed =
      (run calls).stats.popped + (run calls).stats.forceClosed + (run calls).depth ∧
    IsGreatest (depths calls) (run calls).stats.maxDepth := by
  have h := run_follows calls
  refine ⟨h.scopes, h.depth_eq, fun o => ?push, h.handle_pop, ?closeAll, h.path_eq,
    h.enclosingType?_eq_some_iff, h.pushed, ?balance, h.maxDepth⟩
  case push => rw [handle, h.depth_eq]
  case closeAll => rw [handle, ← h.scopes, List.reverse_reverse]
  case balance => rw [h.depth_eq, ← h.balance]

/-- A brace too many and the end of the input do not lower the greatest depth. -/
example (outer inner : Opening) :
    (run [.push outer, .push inner, .pop 3, .closeAll, .pop 4]).stats = ⟨2, 1, 1, 2⟩ := rfl

end ScopeTracker

end DeclTags
