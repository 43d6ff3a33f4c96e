import DeclTags.Proofs.Blocks
import DeclTags.Proofs.Held
import DeclTags.Proofs.Relocation

set_option autoImplicit false

/-! # Scans of relocated tokens

A scan that is fed relocated tokens does what the scan of the tokens does, one step for one. It
holds the relocated tokens and has the same scopes open; what it decides, reports and counts on top
of what it started with is told of other places, and apart from that the same (`Scan.Follows`). The
relation holds when both begin, every token keeps it (`Scan.Follows.feed`), and so does the end of
the input (`Scan.Follows.finish`).

What a symbol or a diagnostic becomes is said by `Symbol.Retold` and `Diagnostic.Retold`. The text
of the parameters is a slice of the source, and messages quote literals; these are the same if the
relocation keeps slices and texts.
-/

open scoped List

namespace DeclTags

/-! ## What is told of relocated tokens -/

variable (ρ : Relocation) (source source' : String) (all : List Token)

/-- One symbol told of some tokens, the other of what these become. -/
structure Symbol.Retold (a b : Symbol) : Prop where
  name : b.name = a.name
  kind : b.kind = a.kind
  modifiers : b.modifiers = a.modifiers
  parameterText : ρ.KeepsSlices source source' all → b.parameterText = a.parameterText
  startLine : ρ.lines a.startLine b.startLine
  span : ∃ n, a.span = .ofToken n ∧ b.span = .ofToken (ρ.map n)
  path : b.path = a.path
  docComment : b.docComment = a.docComment

/-- One decision told of some tokens, the other of what these become. -/
inductive Decision.Retold : Decision → Decision → Prop where
  | declaration {a b : Symbol} (h : a.Retold ρ source source' all b) :
      Retold (.declaration a) (.declaration b)
  | type (name : String) {a b : Option Symbol}
      (h : Option.Rel (Symbol.Retold ρ source source' all) a b) :
      Retold (.type name a) (.type name b)
  | anonymousClass : Retold .anonymousClass .anonymousClass
  | controlBlock : Retold .controlBlock .controlBlock
  | unknown : Retold .unknown .unknown
  | ambiguous (name : String) {m n : Nat} {a b : CallReason} (hline : ρ.lines m n)
      (h : a.Retold ρ b) : Retold (.ambiguous name m a) (.ambiguous name n b)

/-- One diagnostic told of some tokens, the other of what these become. Where the message names a
line, the other names the line that corresponds. -/
inductive Diagnostic.Retold : Diagnostic → Diagnostic → Prop where
  | plain {kind : DiagnosticKind} {m n : Nat} {message message' : String}
      (hkind : kind ≠ .unbalancedBraces) (hline : ρ.lines m n)
      (h : ρ.KeepsTexts → message' = message) :
      Retold (.ofKind kind m message) (.ofKind kind n message')
  | unmatched {m n : Nat} (hline : ρ.lines m n) :
      Retold (.ofKind .unbalancedBraces m (unmatchedMessage m))
        (.ofKind .unbalancedBraces n (unmatchedMessage n))
  | openScopes (count : Nat) {m n i j : Nat} (hline : ρ.lines m n) (h : ρ.lines i j) :
      Retold (.ofKind .unbalancedBraces m (Scan.openScopesMessage count i))
        (.ofKind .unbalancedBraces n (Scan.openScopesMessage count j))

/-- The scope of a brace, and that of what the brace becomes. -/
structure Scope.Retold (a b : Scope) : Prop where
  depth : b.depth = a.depth
  opener : b.opener.unindexed = a.opener.unindexed
  line : ρ.lines a.line b.line

variable {ρ source source' all}

theorem CallReason.Retold.eq_of_keepsTexts {a b : CallReason} (h : a.Retold ρ b)
    (hρ : ρ.KeepsTexts) : b = a := by
  cases h with
  | literal t => rw [hρ t]
  | construction keyword => rfl

/-- What is the same for related elements is the same for related lists. -/
theorem map_eq_of_forall₂ {α β : Type} {R : α → α → Prop} {f : α → β} {xs ys : List α}
    (hf : ∀ a b, R a b → f b = f a) (h : List.Forall₂ R xs ys) : ys.map f = xs.map f := by
  induction h with
  | nil => rfl
  | cons hab _ ih => rw [List.map_cons, List.map_cons, hf _ _ hab, ih]

/-- Where one element is a function of the other, so is one list. -/
theorem eq_map_of_forall₂ {α β : Type} {R : α → β → Prop} {f : α → β} {xs : List α} {ys : List β}
    (hf : ∀ a b, R a b → b = f a) (h : List.Forall₂ R xs ys) : ys = xs.map f := by
  induction h with
  | nil => rfl
  | cons hab _ ih => rw [List.map_cons, ← ih, ← hf _ _ hab]

/-! ## Scopes -/

namespace ScopeTracker

variable {t u : ScopeTracker}

/-- The openers of the scopes, without the indices of their symbols. -/
def openers (t : ScopeTracker) : List Opener := t.outline.scopes.map Scope.opener

theorem path_eq_openers (t : ScopeTracker) :
    t.path = t.openers.reverse.filterMap Opener.segment? := by
  rw [← outline_path, path, openers, ← List.map_reverse, List.filterMap_map]
  rfl

theorem enclosingType?_eq_openers (t : ScopeTracker) :
    t.enclosingType? =
      match t.openers.find? Opener.isClassLike with
      | some (.type name _) => some name
      | _ => none := by
  rw [← outline_enclosingType?, openers, List.find?_map]
  rfl

theorem directlyInType_eq_openers (t : ScopeTracker) :
    t.directlyInType =
      match t.openers.head? with
      | some (.type _ _) => true
      | _ => false := by
  rw [← outline_directlyInType, openers, List.head?_map]
  rfl

theorem openers_retold (h : List.Forall₂ (Scope.Retold ρ) t.scopes u.scopes) :
    u.openers = t.openers := by
  rw [openers, outline, List.map_map, openers, outline, List.map_map]
  exact map_eq_of_forall₂ (fun _ _ hscope => hscope.opener) h

theorem path_retold (h : List.Forall₂ (Scope.Retold ρ) t.scopes u.scopes) : u.path = t.path := by
  rw [path_eq_openers, openers_retold h, ← path_eq_openers]

theorem enclosingType?_retold (h : List.Forall₂ (Scope.Retold ρ) t.scopes u.scopes) :
    u.enclosingType? = t.enclosingType? := by
  rw [enclosingType?_eq_openers, openers_retold h, ← enclosingType?_eq_openers]

theorem directlyInType_retold (h : List.Forall₂ (Scope.Retold ρ) t.scopes u.scopes) :
    u.directlyInType = t.directlyInType := by
  rw [directlyInType_eq_openers, openers_retold h, ← directlyInType_eq_openers]

theorem depth_retold (h : List.Forall₂ (Scope.Retold ρ) t.scopes u.scopes) :
    u.depth = t.depth := by
  obtain ⟨scopes, stats⟩ := t
  obtain ⟨scopes', stats'⟩ := u
  cases h with
  | nil => rfl
  | cons hscope _ => exact congrArg (· + 1) hscope.depth

end ScopeTracker

/-! ## Candidates -/

/-- The candidate with its tokens relocated. -/
def Candidate.map (ρ : Relocation) (c : Candidate) : Candidate :=
  { c with back := c.back.map ρ.map }

namespace Candidate

variable {g : Grammar} {c : Candidate} {t u : ScopeTracker} {run : List Token}

@[simp] theorem tokens_map (ρ : Relocation) (c : Candidate) :
    (c.map ρ).tokens = c.tokens.map ρ.map := List.map_reverse.symm

@[simp] theorem isEmpty_map (ρ : Relocation) (c : Candidate) :
    (c.map ρ).isEmpty = c.isEmpty := List.isEmpty_map

theorem add_map (ρ : Relocation) (limit : Nat) (v : Token) (c : Candidate) :
    (c.map ρ).add limit (ρ.map v) = (c.add limit v).map ρ := by
  have hdepth : depthAfter c.parenDepth (ρ.map v) = depthAfter c.parenDepth v := by
    simp only [depthAfter, Relocation.isPunct_map]
  unfold add map
  simp only [hdepth]
  split <;> rfl

/-- The line on which a run begins, and that on which the relocated run does. -/
theorem firstLine_map (ρ : Relocation) (run : List Token) (n : Token) :
    ρ.lines ((run.head?.map Token.line).getD n.line)
      (((run.map ρ.map).head?.map Token.line).getD (ρ.map n).line) := by
  cases run with
  | nil => exact ρ.lines_map n
  | cons first run => exact ρ.lines_map first

theorem typeDecision?_map (hadj : ρ.KeepsAdjacency run) (hall : run ⊆ all)
    (hscopes : List.Forall₂ (Scope.Retold ρ) t.scopes u.scopes) :
    Option.Rel (Decision.Retold ρ source source' all) (c.typeDecision? g source t run)
      ((c.map ρ).typeDecision? g source' u (run.map ρ.map)) := by
  unfold typeDecision?
  rw [TypeHeader.ofRun?_map hadj]
  cases hh : TypeHeader.ofRun? g run with
  | none => exact .none
  | some header =>
      have hname : (header.map ρ).name.text = header.name.text :=
        Relocation.text_map_of_isWord
          (Token.isWord_of_isIdentifier (TypeHeader.name_isIdentifier hh))
      have hrest : header.rest ⊆ all := List.Subset.trans (TypeHeader.ofRun?_mem hh).2 hall
      refine .some ?_
      simp only [hname]
      refine .type _ ?_
      split
      · exact .some {
          name := rfl
          kind := rfl
          modifiers := rfl
          parameterText := fun h => TypeHeader.componentText_map (h.mono hrest)
          startLine := firstLine_map ρ run header.name
          span := ⟨header.name, rfl, rfl⟩
          path := ScopeTracker.path_retold hscopes
          docComment := rfl }
      · exact .none

theorem callableDecision_map (hadj : ρ.KeepsAdjacency run) (hall : run ⊆ all)
    (hscopes : List.Forall₂ (Scope.Retold ρ) t.scopes u.scopes) (withBody : Bool) :
    Decision.Retold ρ source source' all (c.callableDecision g source t withBody run)
      ((c.map ρ).callableDecision g source' u withBody (run.map ρ.map)) := by
  unfold callableDecision
  rw [CallableHeader.ofRun?_map hadj, ScopeTracker.enclosingType?_retold hscopes]
  cases hh : CallableHeader.ofRun? g withBody run with
  | none => exact .unknown
  | some header =>
      have hidentifier := CallableHeader.name_isIdentifier hh
      have hname : (header.map ρ).name.text = header.name.text :=
        Relocation.text_map_of_isWord (Token.isWord_of_isIdentifier hidentifier)
      have hgroup : header.group ⊆ all :=
        List.Subset.trans (CallableHeader.ofRun?_mem hh).2 hall
      simp only [Option.map_some, CallableHeader.kind?_map hidentifier]
      cases header.kind? g t.enclosingType? withBody with
      | none => exact .unknown
      | some kind =>
          have hreason := CallableHeader.callReason?_map ρ g header
          simp only [hname]
          generalize header.callReason? g = a, (header.map ρ).callReason? g = b at hreason
          cases hreason with
          | none =>
              exact .declaration {
                name := rfl
                kind := rfl
                modifiers := rfl
                parameterText := fun h => groupText_map (h.mono hgroup)
                startLine := firstLine_map ρ run header.name
                span := ⟨header.name, rfl, rfl⟩
                path := ScopeTracker.path_retold hscopes
                docComment := rfl }
          | some hreason => exact .ambiguous _ (ρ.lines_map header.name) hreason

/-- What a brace opens behind relocated tokens. -/
theorem atBrace_map (hadj : ρ.KeepsAdjacency c.tokens) (hall : c.tokens ⊆ all)
    (hscopes : List.Forall₂ (Scope.Retold ρ) t.scopes u.scopes) :
    Decision.Retold ρ source source' all (c.atBrace g source t)
      ((c.map ρ).atBrace g source' u) := by
  have hconstruction : endsWithConstruction g (c.map ρ).back = endsWithConstruction g c.back :=
    endsWithConstruction_map ρ g c.back
  have hoverflowed : (c.map ρ).overflowed = c.overflowed := rfl
  have hdepth : (c.map ρ).parenDepth = c.parenDepth := rfl
  unfold atBrace
  rw [isEmpty_map, hoverflowed, hconstruction, hdepth]
  split
  · exact .unknown
  · split
    · exact .anonymousClass
    · split
      · exact .unknown
      · simp only [tokens_map, startsWithControl_map]
        split
        · exact .controlBlock
        · have htype : Option.Rel (Decision.Retold ρ source source' all)
              (c.typeDecision? g source t c.tokens)
              ((c.map ρ).typeDecision? g source' u (c.tokens.map ρ.map)) :=
            typeDecision?_map hadj hall hscopes
          generalize c.typeDecision? g source t c.tokens = d,
            (c.map ρ).typeDecision? g source' u (c.tokens.map ρ.map) = e at htype
          cases htype with
          | none => exact callableDecision_map hadj hall hscopes true
          | some h => exact h

/-- The same part of a relocated candidate is judged at a semicolon. -/
theorem member_map (hadj : ρ.KeepsAdjacency c.tokens) :
    (c.map ρ).member g = Prod.map (List.map ρ.map) id (c.member g) := by
  unfold member
  simp only [tokens_map, memberTail?_map hadj]
  cases memberTail? g c.tokens with
  | none => rfl
  | some pair =>
      obtain ⟨before, tail⟩ := pair
      cases tail <;> rfl

/-- The member that a semicolon ends behind relocated tokens. -/
theorem atSemicolon?_map (hadj : ρ.KeepsAdjacency c.tokens) (hall : c.tokens ⊆ all)
    (hscopes : List.Forall₂ (Scope.Retold ρ) t.scopes u.scopes) :
    Option.Rel (Decision.Retold ρ source source' all) (c.atSemicolon? g source t)
      ((c.map ρ).atSemicolon? g source' u) := by
  have hmember : (c.map ρ).mayBeMember g u = c.mayBeMember g t := by
    rw [mayBeMember, isEmpty_map, ScopeTracker.directlyInType_retold hscopes]
    rfl
  have hinitial := c.member_initial g
  unfold atSemicolon?
  rw [hmember, member_map hadj]
  split
  · have hdecision : Decision.Retold ρ source source' all
        (c.callableDecision g source t (c.member g).2 (c.member g).1)
        ((c.map ρ).callableDecision g source' u (c.member g).2 ((c.member g).1.map ρ.map)) :=
      callableDecision_map (hadj.sublist hinitial.sublist)
        (List.Subset.trans hinitial.subset hall) hscopes (c.member g).2
    simp only [Prod.map_fst, Prod.map_snd, id_eq]
    generalize c.callableDecision g source t (c.member g).2 (c.member g).1 = d,
      (c.map ρ).callableDecision g source' u (c.member g).2 ((c.member g).1.map ρ.map) = e
      at hdecision
    cases hdecision with
    | declaration h => exact .some (.declaration h)
    | ambiguous name hline h => exact .some (.ambiguous name hline h)
    | type _ _ => exact .none
    | anonymousClass => exact .none
    | controlBlock => exact .none
    | unknown => exact .none
  · exact .none

end Candidate

/-! ## Recognizers -/

/-- The recognizer with its tokens relocated. -/
def Recognizer.map (ρ : Relocation) (r : Recognizer) : Recognizer where
  candidate := r.candidate.map ρ
  pendingDoc := r.pendingDoc
  suspended := r.suspended.map fun w => ⟨w.depth, w.candidate.map ρ⟩

namespace Recognizer

variable {g : Grammar} {r : Recognizer} {t : Token}

theorem extend_map (ρ : Relocation) :
    (r.map ρ).extend g (ρ.map t) = (r.extend g t).map ρ := by
  have hadd : ∀ c : Candidate, (c.map ρ).add g.maxCandidateTokens (ρ.map t) =
      (c.add g.maxCandidateTokens t).map ρ := Candidate.add_map ρ _ _
  unfold extend map
  simp only [Candidate.isEmpty_map]
  split
  · rw [← hadd]
    rfl
  · rw [← hadd]

theorem observe_map (ρ : Relocation) :
    (r.map ρ).observe g (ρ.map t) = (r.observe g t).map ρ := by
  unfold observe
  rw [ρ.kind_map]
  cases hk : t.kind with
  | blockComment =>
      have hempty : (r.map ρ).candidate.isEmpty = r.candidate.isEmpty :=
        Candidate.isEmpty_map ρ r.candidate
      simp only [hempty, ρ.text_map t (by rw [hk]; rfl)]
      split <;> rfl
  | blank => rfl
  | newline => rfl
  | lineComment => rfl
  | endOfInput => rfl
  | _ => exact extend_map ρ

theorem inParenGroup_map (ρ : Relocation) (r : Recognizer) :
    (r.map ρ).inParenGroup = r.inParenGroup := rfl

theorem openBrace_map (ρ : Relocation) {tracker tracker' : ScopeTracker}
    (hdepth : tracker'.depth = tracker.depth) :
    ((r.map ρ).openBrace g source' tracker').2 = (r.openBrace g source tracker).2.map ρ := by
  unfold openBrace
  simp only [inParenGroup_map, hdepth]
  split <;> rfl

theorem closeBrace_map (ρ : Relocation) (closed : Option Nat) :
    (r.map ρ).closeBrace closed = (r.closeBrace closed).map ρ := by
  unfold closeBrace
  cases closed with
  | none => rfl
  | some depth =>
      have hdrop : (r.map ρ).suspended.dropWhile (fun s => depth < s.depth) =
          (r.suspended.dropWhile fun s => depth < s.depth).map
            fun w => ⟨w.depth, w.candidate.map ρ⟩ := by
        rw [map, List.dropWhile_map]
        rfl
      simp only [hdrop]
      cases r.suspended.dropWhile fun s => depth < s.depth with
      | nil => rfl
      | cons w outer =>
          simp only [List.map_cons]
          split <;> rfl

theorem semicolon_map (ρ : Relocation) (tracker tracker' : ScopeTracker) :
    ((r.map ρ).semicolon g source' tracker' (ρ.map t)).2 =
      (r.semicolon g source tracker t).2.map ρ := by
  unfold semicolon
  rw [inParenGroup_map]
  split
  · exact observe_map ρ
  · rfl

end Recognizer

/-! ## Scans -/

/-- The counts of two scans, the second one begun where the first one had closed everything. -/
def ScopeStats.join (a b : ScopeStats) : ScopeStats where
  pushed := a.pushed + b.pushed
  popped := a.popped + b.popped
  forceClosed := a.forceClosed + b.forceClosed
  maxDepth := max a.maxDepth b.maxDepth

namespace Scan

/-- The scan `s'` holds what `s` holds, relocated, and has found on top of `base` what `s` has
found. -/
structure Follows (ρ : Relocation) (source source' : String) (all : List Token)
    (base s s' : Scan) : Prop where
  recognizer : s'.recognizer = s.recognizer.map ρ
  scopes : List.Forall₂ (Scope.Retold ρ) s.tracker.scopes s'.tracker.scopes
  stats : s'.tracker.stats = base.tracker.stats.join s.tracker.stats
  symbols : ∃ retold, s'.table.toList = base.table.toList ++ retold ∧
    List.Forall₂ (Symbol.Retold ρ source source' all) s.table.toList retold
  diagnostics : ∃ retold, s'.diagnostics.toList = base.diagnostics.toList ++ retold ∧
    List.Forall₂ (Diagnostic.Retold ρ) s.diagnostics.toList retold

/-- A comment or literal without its end stays one. -/
theorem openEnd?_map (ρ : Relocation) (t : Token) :
    Option.Rel (Diagnostic.Retold ρ) (openEnd? t) (openEnd? (ρ.map t)) := by
  unfold openEnd?
  rw [ρ.terminated_map, ρ.kind_map]
  split
  · exact .none
  · split
    · exact .some (.plain DiagnosticKind.noConfusion (ρ.lines_map t) fun _ => rfl)
    · exact .some (.plain DiagnosticKind.noConfusion (ρ.lines_map t) fun _ => rfl)
    · exact .some (.plain DiagnosticKind.noConfusion (ρ.lines_map t) fun _ => rfl)
    · exact .none

namespace Follows

variable {g : Grammar} {base s s' : Scan} {t : Token}

/-- A scan that begins where everything is closed follows one that begins. -/
theorem init (hr : base.recognizer = {}) (hs : base.tracker.scopes = []) :
    Follows ρ source source' all base {} base where
  recognizer := hr
  scopes := by
    rw [hs]
    exact .nil
  stats := by
    show base.tracker.stats = base.tracker.stats.join {}
    simp [ScopeStats.join]
  symbols := ⟨[], (List.append_nil _).symm, .nil⟩
  diagnostics := ⟨[], (List.append_nil _).symm, .nil⟩

theorem update {r r' : Recognizer} {k k' : ScopeTracker}
    (h : Follows ρ source source' all base s s') (hr : r' = r.map ρ)
    (hscopes : List.Forall₂ (Scope.Retold ρ) k.scopes k'.scopes)
    (hstats : k'.stats = base.tracker.stats.join k.stats) :
    Follows ρ source source' all base { s with recognizer := r, tracker := k }
      { s' with recognizer := r', tracker := k' } :=
  ⟨hr, hscopes, hstats, h.symbols, h.diagnostics⟩

theorem report {kind kind' : DiagnosticKind} {m m' : Nat} {message message' : String}
    (h : Follows ρ source source' all base s s')
    (hd : Diagnostic.Retold ρ (.ofKind kind m message) (.ofKind kind' m' message')) :
    Follows ρ source source' all base (s.report kind m message)
      (s'.report kind' m' message') := by
  obtain ⟨retold, heq, hretold⟩ := h.diagnostics
  refine ⟨h.recognizer, h.scopes, h.stats, h.symbols,
    retold ++ [.ofKind kind' m' message'], ?_, ?_⟩
  · rw [report_diagnostics, heq, List.append_assoc]
  · rw [report_diagnostics]
    exact List.rel_append hretold (.cons hd .nil)

theorem append {a b : Symbol} (h : Follows ρ source source' all base s s')
    (hsymbol : a.Retold ρ source source' all b) :
    Follows ρ source source' all base { s with table := s.table.append a }
      { s' with table := s'.table.append b } := by
  obtain ⟨retold, heq, hretold⟩ := h.symbols
  refine ⟨h.recognizer, h.scopes, h.stats, ⟨retold ++ [b], ?_, ?_⟩, h.diagnostics⟩
  · rw [SymbolTable.toList_append, heq, List.append_assoc]
  · rw [SymbolTable.toList_append]
    exact List.rel_append hretold (.cons hsymbol .nil)

theorem record {d e : Decision} (h : Follows ρ source source' all base s s')
    (hd : d.Retold ρ source source' all e) :
    Follows ρ source source' all base (s.record d) (s'.record e) := by
  cases hd with
  | declaration hsymbol => exact h.append hsymbol
  | type name hsymbol =>
      cases hsymbol with
      | none => exact h
      | some hsymbol => exact h.append hsymbol
  | anonymousClass => exact h
  | controlBlock => exact h
  | unknown => exact h
  | ambiguous name hline hreason =>
      exact h.report (.plain DiagnosticKind.noConfusion hline fun hρ => by
        rw [hreason.eq_of_keepsTexts hρ])

/-! ### One token -/

theorem feed_opening (h : Follows ρ source source' all base s s') (ho : t.isPunct '{' = true)
    (hadj : ρ.KeepsAdjacency s.recognizer.candidate.tokens)
    (hall : s.recognizer.candidate.tokens ⊆ all) :
    Follows ρ source source' all base (s.feed g source t) (s'.feed g source' (ρ.map t)) := by
  have ho' : (ρ.map t).isPunct '{' = true := (ρ.isPunct_map t '{').trans ho
  have hdepth := ScopeTracker.depth_retold h.scopes
  have hdecision : Decision.Retold ρ source source' all
      (s.recognizer.candidate.atBrace g source s.tracker)
      (s'.recognizer.candidate.atBrace g source' s'.tracker) := by
    rw [h.recognizer]
    exact Candidate.atBrace_map hadj hall h.scopes
  have hopener : (s'.opener g source').unindexed = (s.opener g source).unindexed := by
    have hkind : ∀ {d e : Decision}, d.Retold ρ source source' all e →
        (openerOf s'.table.size e).unindexed = (openerOf s.table.size d).unindexed := by
      intro d e hd
      cases hd with
      | declaration hsymbol => simp [openerOf, Opener.unindexed, hsymbol.name]
      | _ => rfl
    exact hkind hdecision
  have hr : (s'.recognizer.openBrace g source' s'.tracker).2 =
      (s.recognizer.openBrace g source s.tracker).2.map ρ := by
    rw [h.recognizer]
    exact Recognizer.openBrace_map ρ hdepth
  rw [Scan.feed_opening ho, Scan.feed_opening ho']
  refine (h.record hdecision).update hr ?_ ?_
  · exact .cons ⟨hdepth, hopener, ρ.lines_map t⟩ h.scopes
  · simp only [ScopeTracker.push, h.stats, ScopeStats.join, hdepth, Nat.add_assoc, Nat.max_assoc]

theorem feed_closing (h : Follows ρ source source' all base s s') (hc : t.isPunct '}' = true) :
    Follows ρ source source' all base (s.feed g source t) (s'.feed g source' (ρ.map t)) := by
  have hc' : (ρ.map t).isPunct '}' = true := (ρ.isPunct_map t '}').trans hc
  rw [Scan.feed_closing hc, Scan.feed_closing hc', closeScope, closeScope, ScopeTracker.pop?,
    ScopeTracker.pop?, h.recognizer]
  have hscopes := h.scopes
  generalize s.tracker.scopes = scopes, s'.tracker.scopes = scopes' at hscopes
  cases hscopes with
  | nil =>
      exact (h.report (.unmatched (ρ.lines_map t))).update (Recognizer.closeBrace_map ρ none)
        h.scopes h.stats
  | cons hscope hrest =>
      refine h.update ?_ hrest ?_
      · rw [hscope.depth]
        exact Recognizer.closeBrace_map ρ _
      · simp only [h.stats, ScopeStats.join, Nat.add_assoc]

theorem feed_semicolon (h : Follows ρ source source' all base s s') (hs : t.isPunct ';' = true)
    (hadj : ρ.KeepsAdjacency s.recognizer.candidate.tokens)
    (hall : s.recognizer.candidate.tokens ⊆ all) :
    Follows ρ source source' all base (s.feed g source t) (s'.feed g source' (ρ.map t)) := by
  have hs' : (ρ.map t).isPunct ';' = true := (ρ.isPunct_map t ';').trans hs
  have hr : (s'.recognizer.semicolon g source' s'.tracker (ρ.map t)).2 =
      (s.recognizer.semicolon g source s.tracker t).2.map ρ := by
    rw [h.recognizer]
    exact Recognizer.semicolon_map ρ s.tracker s'.tracker
  have hdecision : Option.Rel (Decision.Retold ρ source source' all)
      (s.recognizer.semicolon g source s.tracker t).1
      (s'.recognizer.semicolon g source' s'.tracker (ρ.map t)).1 := by
    rw [h.recognizer, Recognizer.semicolon, Recognizer.semicolon, Recognizer.inParenGroup_map]
    split
    · exact .none
    · exact Candidate.atSemicolon?_map hadj hall h.scopes
  rw [Scan.feed_semicolon hs, Scan.feed_semicolon hs', semicolon, semicolon]
  simp only [hr]
  generalize (s.recognizer.semicolon g source s.tracker t).1 = d,
    (s'.recognizer.semicolon g source' s'.tracker (ρ.map t)).1 = e at hdecision
  cases hdecision with
  | none => exact h.update rfl h.scopes h.stats
  | some hd =>
      have hrecord := h.record hd
      exact hrecord.update rfl hrecord.scopes hrecord.stats

theorem feed_plain (h : Follows ρ source source' all base s s') (hp : t.isStructural = false) :
    Follows ρ source source' all base (s.feed g source t) (s'.feed g source' (ρ.map t)) := by
  have hp' : (ρ.map t).isStructural = false := by
    simpa only [Token.isStructural, Token.isBrace, Relocation.isPunct_map] using hp
  have hr : s'.recognizer.observe g (ρ.map t) = (s.recognizer.observe g t).map ρ := by
    rw [h.recognizer]
    exact Recognizer.observe_map ρ
  rw [Scan.feed_plain hp, Scan.feed_plain hp', hr]
  obtain ⟨retold, heq, hretold⟩ := h.diagnostics
  have hend := openEnd?_map ρ t
  generalize openEnd? t = d, openEnd? (ρ.map t) = e at hend
  cases hend with
  | none => exact ⟨rfl, h.scopes, h.stats, h.symbols, retold, heq, hretold⟩
  | @some a b hd =>
      refine ⟨rfl, h.scopes, h.stats, h.symbols, retold ++ [b], ?_, ?_⟩
      · rw [Option.elim_some, Array.toList_push, heq, List.append_assoc]
      · rw [Option.elim_some, Array.toList_push]
        exact List.rel_append hretold (.cons hd .nil)

/-- One token, and what it becomes, keep two scans together. -/
theorem feed (h : Follows ρ source source' all base s s') (hadj : ρ.KeepsAdjacency all)
    (hall : s.recognizer.held <+ all) :
    Follows ρ source source' all base (s.feed g source t) (s'.feed g source' (ρ.map t)) := by
  have hcandidate : s.recognizer.candidate.tokens <+ all :=
    (List.sublist_append_right _ _).trans hall
  rcases t.structural_cases with ho | hc | hs | hp
  · exact h.feed_opening ho (hadj.sublist hcandidate) hcandidate.subset
  · exact h.feed_closing hc
  · exact h.feed_semicolon hs (hadj.sublist hcandidate) hcandidate.subset
  · exact h.feed_plain hp

/-- **Relocated tokens keep two scans together.** -/
theorem run {ts : List Token} (h : Follows ρ source source' all base s s')
    (hadj : ρ.KeepsAdjacency all) (hall : s.recognizer.held ++ ts <+ all) :
    Follows ρ source source' all base (run g source ts s)
      (run g source' (ts.map ρ.map) s') := by
  induction ts generalizing s s' with
  | nil => exact h
  | cons t ts ih =>
      have hheld : s.recognizer.held <+ all := (List.sublist_append_left _ _).trans hall
      have hrest : (s.feed g source t).recognizer.held ++ ts <+ all := by
        refine List.Sublist.trans ?_ hall
        rw [List.append_cons]
        exact feed_held_sublist.append (List.Sublist.refl ts)
      exact ih (h.feed hadj hheld) hrest

/-- The line of the end does not count before the end. -/
theorem endsAt (h : Follows ρ source source' all base s s') (line line' : Nat) :
    Follows ρ source source' all base { s with endLine := line } { s' with endLine := line' } :=
  ⟨h.recognizer, h.scopes, h.stats, h.symbols, h.diagnostics⟩

/-- What is still open at the end of the input is so for both. -/
theorem finish (h : Follows ρ source source' all base s s')
    (hline : ρ.lines s.endLine s'.endLine) :
    Follows ρ source source' all base s.finish s'.finish := by
  have hdepth := ScopeTracker.depth_retold h.scopes
  unfold Scan.finish ScopeTracker.current?
  have hscopes := h.scopes
  generalize hxs : s.tracker.scopes = scopes, hys : s'.tracker.scopes = scopes' at hscopes
  cases hscopes with
  | nil =>
      simp only [List.head?_nil]
      rw [h.recognizer, Recognizer.inParenGroup_map]
      split
      · exact h.report (.plain DiagnosticKind.noConfusion hline fun _ => rfl)
      · exact h
  | cons hscope _ =>
      simp only [List.head?_cons]
      rw [hdepth]
      have hreport := h.report (.openScopes s.tracker.depth hline hscope.line)
      refine hreport.update hreport.recognizer .nil ?_
      simp only [ScopeTracker.closeAll, h.stats, ScopeStats.join, hdepth, Nat.add_assoc]

end Follows

end Scan

end DeclTags
