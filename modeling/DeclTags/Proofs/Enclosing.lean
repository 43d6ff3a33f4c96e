import DeclTags.Proofs.Blocks
import DeclTags.Proofs.Headers

set_option autoImplicit false

/-! # Enclosing declarations

The path of a symbol names the declarations around it. The open scopes are those of the braces that
have no partner yet, innermost first, and each is what was decided at its brace (`Scan.scopes_eq`);
so the path is read off these braces (`Scan.path_eq`). Where types are reported, a brace that adds
to the path reports a symbol of that name, and the scope keeps its index. That symbol has for its
path what the braces further out add, and it is in the table before any symbol from inside of the
brace (`path_backed_by_symbols`).
-/

namespace DeclTags

/-- The index of the symbol to which the scope belongs. -/
def Opener.symbol? : Opener → Option Nat
  | .declaration _ symbol => some symbol
  | .type _ symbol => symbol
  | _ => none

/-! ## What a decision names -/

namespace Candidate

variable {g : Grammar} {source : String} {tracker : ScopeTracker} {c : Candidate}
  {run : List Token} {withBody : Bool} {x : Symbol} {d : Decision}

theorem typeDecision?_path (h : c.typeDecision? g source tracker run = some d)
    (hx : d.symbol? = some x) : x.path = tracker.path := by
  obtain ⟨header, -, rfl⟩ := Option.map_eq_some_iff.mp h
  simp only [Decision.symbol?] at hx
  split at hx
  · cases hx
    rfl
  · cases hx

theorem callableDecision_path
    (hx : (c.callableDecision g source tracker withBody run).symbol? = some x) :
    x.path = tracker.path := by
  unfold callableDecision at hx
  split at hx
  · cases hx
  · split at hx
    · cases hx
    · split at hx
      · cases hx
      · cases hx
        rfl

/-- A symbol that is reported at a brace has the path of the scopes around the brace. -/
theorem atBrace_path (hx : (c.atBrace g source tracker).symbol? = some x) :
    x.path = tracker.path := by
  obtain ⟨-, -, h | h⟩ := atBrace_symbol?_cases hx
  · exact typeDecision?_path h hx
  · exact callableDecision_path h

/-- A symbol that is reported at a semicolon has the path of the scopes around it. -/
theorem atSemicolon?_path (h : c.atSemicolon? g source tracker = some d)
    (hx : d.symbol? = some x) : x.path = tracker.path := by
  obtain ⟨-, -, rfl⟩ := atSemicolon?_cases h
  exact callableDecision_path hx

/-- Where types are reported, a brace that adds a name to the path reports a symbol of that name,
and its scope keeps the symbol's index. -/
theorem atBrace_segment? (hg : g.emitTypeSymbols = true) {n : Nat} {segment : String}
    (h : (Scan.openerOf n (c.atBrace g source tracker)).segment? = some segment)
    (hne : segment ≠ anonymousSegment) :
    ∃ b, (c.atBrace g source tracker).symbol? = some b ∧ b.name = segment ∧
      (Scan.openerOf n (c.atBrace g source tracker)).symbol? = some n := by
  rcases atBrace_cases g source tracker c with hd | ⟨-, -, hd | hd⟩
  · simp only [List.mem_cons, List.not_mem_nil, or_false] at hd
    rcases hd with hd | hd | hd
    · rw [hd] at h
      cases h
    · rw [hd] at h
      cases h
      exact absurd rfl hne
    · rw [hd] at h
      cases h
  · obtain ⟨header, -, hd⟩ := Option.map_eq_some_iff.mp hd
    simp only [if_pos hg] at hd
    rw [← hd] at h ⊢
    cases h
    exact ⟨_, rfl, rfl, rfl⟩
  · rw [hd] at h ⊢
    unfold callableDecision at h ⊢
    split at h
    · cases h
    · split at h
      · cases h
      · split at h
        · cases h
        · cases h
          exact ⟨_, rfl, rfl, rfl⟩

end Candidate

/-! ## The open scopes -/

/-- The `{` without a partner that stand before such a brace are those without a partner there. -/
theorem unclosed_take {ts : List Token} {outer inner : List (Token × Nat)} {p : Token × Nat}
    (h : unclosed ts = outer ++ p :: inner) : unclosed (ts.take p.2) = outer := by
  induction ts using brace_induction generalizing inner with
  | nil => simp [unclosed] at h
  | opening ts o ho ih =>
      rw [unclosed_concat_opening _ ho] at h
      rcases List.eq_nil_or_concat inner with rfl | ⟨inner, last, rfl⟩
      · obtain ⟨houter, hp⟩ := List.append_inj' h rfl
        rw [← (List.cons.inj hp).1, List.take_left, houter]
      · rw [List.concat_eq_append, ← List.cons_append, ← List.append_assoc] at h
        have hts := (List.append_inj' h rfl).1
        have hp : p ∈ unclosed ts := hts ▸ List.mem_append_right _ List.mem_cons_self
        have hlt : p.2 < ts.length := List.snd_lt_of_mem_zipIdx (List.mem_of_mem_filter hp)
        rw [List.take_append_of_le_length (Nat.le_of_lt hlt)]
        exact ih ts (Nat.le_refl _) hts
  | plain ts t ht ih =>
      rw [unclosed_concat_plain _ ht] at h
      have hp : p ∈ unclosed ts := h ▸ List.mem_append_right _ List.mem_cons_self
      have hlt : p.2 < ts.length := List.snd_lt_of_mem_zipIdx (List.mem_of_mem_filter hp)
      rw [List.take_append_of_le_length (Nat.le_of_lt hlt)]
      exact ih ts (Nat.le_refl _) h
  | closing ts c hc ih =>
      rw [unclosed_concat_closing _ hc] at h
      have hne : unclosed ts ≠ [] := by
        intro hnil
        rw [hnil] at h
        simp at h
      have hts : unclosed ts = outer ++ p :: (inner ++ [(unclosed ts).getLast hne]) := by
        rw [← List.cons_append, ← List.append_assoc, ← h, List.dropLast_append_getLast]
      have hp : p ∈ unclosed ts := hts ▸ List.mem_append_right _ List.mem_cons_self
      have hlt : p.2 < ts.length := List.snd_lt_of_mem_zipIdx (List.mem_of_mem_filter hp)
      rw [List.take_append_of_le_length (Nat.le_of_lt hlt)]
      exact ih ts (Nat.le_refl _) hts

namespace Scan

variable {g : Grammar} {source : String} {s : Scan} {t : Token}

/-- The scope that the brace at a position of the tokens opens. -/
def scopeAt (g : Grammar) (source : String) (ts : List Token) (p : Token × Nat) : Scope :=
  let s := run g source (ts.take p.2) {}
  ⟨s.tracker.depth, s.opener g source, p.1.line, p.1.start⟩

/-- The scopes of open braces do not depend on the tokens behind them. -/
theorem scopeAt_append (ts us : List Token) :
    (unclosed ts).map (scopeAt g source (ts ++ us)) = (unclosed ts).map (scopeAt g source ts) := by
  refine List.map_congr_left fun p hp => ?_
  have hlt : p.2 < ts.length := List.snd_lt_of_mem_zipIdx (List.mem_of_mem_filter hp)
  rw [scopeAt, List.take_append_of_le_length (Nat.le_of_lt hlt), scopeAt]

/-- **The open scopes** are those of the braces without a partner, innermost first. -/
theorem scopes_eq (g : Grammar) (source : String) (ts : List Token) :
    (run g source ts {}).tracker.scopes = ((unclosed ts).map (scopeAt g source ts)).reverse := by
  induction ts using brace_induction with
  | nil => rfl
  | opening ts o ho ih =>
      have hlast : scopeAt g source (ts ++ [o]) (o, ts.length) =
          ⟨(run g source ts {}).tracker.depth, (run g source ts {}).opener g source, o.line,
            o.start⟩ := by
        rw [scopeAt, List.take_left]
      rw [run_append, run_cons, run_nil, feed_tracker_of_opening ho, ScopeTracker.push_scopes,
        ih ts (Nat.le_refl _), unclosed_concat_opening _ ho, List.map_append, scopeAt_append,
        List.map_singleton, hlast, List.reverse_concat]
  | plain ts t ht ih =>
      rw [run_append, run_cons, run_nil, feed_tracker_of_not_isBrace ht, ih ts (Nat.le_refl _),
        unclosed_concat_plain _ ht, scopeAt_append]
  | closing ts c hc ih =>
      have hmap : ((unclosed ts).dropLast).map (scopeAt g source (ts ++ [c])) =
          ((unclosed ts).map (scopeAt g source ts)).dropLast := by
        rw [List.map_dropLast, scopeAt_append]
      rw [run_append, run_cons, run_nil, feed_tracker_of_closing hc, ScopeTracker.pop?_scopes,
        ih ts (Nat.le_refl _), unclosed_concat_closing _ hc, hmap, List.tail_reverse]

/-- The path is what the braces without a partner add to it, outermost first. -/
theorem path_eq (g : Grammar) (source : String) (ts : List Token) :
    (run g source ts {}).tracker.path =
      (unclosed ts).filterMap fun p => (scopeAt g source ts p).opener.segment? := by
  rw [ScopeTracker.path, scopes_eq, List.reverse_reverse, List.filterMap_map]
  rfl

/-- A symbol that is reported at a token has the path of the scopes around that token. -/
theorem symbol?_path {a : Symbol} (h : s.symbol? g source t = some a) :
    a.path = s.tracker.path := by
  obtain ⟨d, hd, ha⟩ := Option.bind_eq_some_iff.mp h
  rcases decision?_cases hd with ⟨-, rfl⟩ | ⟨-, -, hd⟩
  · exact Candidate.atBrace_path ha
  · exact Candidate.atSemicolon?_path hd ha

/-- The `n`-th symbol that is reported is reported at one of the tokens. -/
theorem exists_of_reported_getElem? {ts : List Token} {n : Nat} {a : Symbol}
    (h : (reported g source ts s)[n]? = some a) :
    ∃ before t after, ts = before ++ t :: after ∧
      (run g source before s).symbol? g source t = some a ∧
      (reported g source before s).length = n := by
  induction ts generalizing s n with
  | nil => cases h
  | cons u ts ih =>
      rw [reported_cons] at h
      cases hu : s.symbol? g source u with
      | none =>
          rw [hu, Option.toList_none, List.nil_append] at h
          obtain ⟨before, t, after, rfl, ha, hn⟩ := ih h
          refine ⟨u :: before, t, after, rfl, ha, ?_⟩
          rw [reported_cons, hu, Option.toList_none, List.nil_append, hn]
      | some b =>
          rw [hu, Option.toList_some, List.singleton_append] at h
          cases n with
          | zero =>
              rw [List.getElem?_cons_zero] at h
              exact ⟨[], u, ts, rfl, hu.trans h, rfl⟩
          | succ n =>
              rw [List.getElem?_cons_succ] at h
              obtain ⟨before, t, after, rfl, ha, hn⟩ := ih h
              refine ⟨u :: before, t, after, rfl, ha, ?_⟩
              rw [reported_cons, hu, Option.toList_some, List.length_append, hn,
                List.length_singleton, Nat.add_comm]

/-- At a `{` that is still open behind the tokens, `b` was reported, and the scope of that brace
keeps the index `k`. -/
def OpenedWith (g : Grammar) (source : String) (ts : List Token) (b : Symbol) (k : Nat) : Prop :=
  ∃ first o second, ts = first ++ o :: second ∧ (o, first.length) ∈ unclosed ts ∧
    (run g source first {}).symbol? g source o = some b ∧
    ∃ scope ∈ (run g source ts {}).tracker.scopes, scope.line = o.line ∧ scope.offset = o.start ∧
      scope.opener.symbol? = some k

/-- A name of the path was added by an open brace: there a symbol of that name was reported, its
index is in the brace's scope, and its path are the names before it. -/
theorem openedWith_of_path (hg : g.emitTypeSymbols = true) {ts : List Token} {i : Nat}
    {segment : String} (h : (run g source ts {}).tracker.path[i]? = some segment)
    (hne : segment ≠ anonymousSegment) :
    ∃ b k, OpenedWith g source ts b k ∧ b.name = segment ∧
      b.path = (run g source ts {}).tracker.path.take i ∧
      k < (reported g source ts {}).length ∧ (reported g source ts {})[k]? = some b := by
  have hpath := path_eq g source ts
  -- the brace that adds the name, and those further out
  have hsplit : (run g source ts {}).tracker.path =
      (run g source ts {}).tracker.path.take i ++
        segment :: (run g source ts {}).tracker.path.drop (i + 1) := by
    obtain ⟨hi, rfl⟩ := List.getElem?_eq_some_iff.mp h
    rw [List.getElem_cons_drop, List.take_append_drop]
  rw [hpath] at hsplit
  obtain ⟨outer, rest, hopen, houter, hrest⟩ := List.filterMap_eq_append_iff.mp hsplit
  obtain ⟨between, p, inner, hrest, hbetween, hp, -⟩ := List.filterMap_eq_cons_iff.mp hrest
  rw [hrest, ← List.append_assoc] at hopen
  obtain ⟨o, n⟩ := p
  have hmem : (o, n) ∈ unclosed ts := hopen ▸ List.mem_append_right _ List.mem_cons_self
  have hget := List.mk_mem_zipIdx_iff_getElem?.mp (List.mem_of_mem_filter hmem)
  have ho : o.isPunct '{' = true := by
    have hfilter := (List.mem_filter.mp hmem).2
    simp only [decide_eq_true_eq] at hfilter
    exact hfilter.1
  obtain ⟨hn, hon⟩ := List.getElem?_eq_some_iff.mp hget
  have hts : ts = ts.take n ++ o :: ts.drop (n + 1) := by
    rw [← hon, List.getElem_cons_drop, List.take_append_drop]
  have hlen : (ts.take n).length = n := by
    rw [List.length_take, Nat.min_eq_left (Nat.le_of_lt hn)]
  -- what was decided at that brace
  obtain ⟨b, hb, hname, hindex⟩ := Candidate.atBrace_segment? hg hp hne
  have hreported : (run g source (ts.take n) {}).symbol? g source o = some b := by
    rw [symbol?, decision?_of_opening ho]
    exact hb
  have hsize : (run g source (ts.take n) {}).table.size =
      (reported g source (ts.take n) {}).length := by
    have hsymbols : (run g source (ts.take n) {}).table.toList =
        ({} : Scan).table.toList ++ reported g source (ts.take n) {} := run_symbols _
    have hlength := congrArg List.length hsymbols
    rw [SymbolTable.length_toList, List.length_append] at hlength
    exact hlength.trans (Nat.zero_add _)
  have hall : reported g source ts {} = reported g source (ts.take n) {} ++
      b :: reported g source (ts.drop (n + 1)) (run g source (ts.take n ++ [o]) {}) := by
    conv_lhs => rw [hts]
    rw [reported_append, reported_cons, hreported, Option.toList_some, List.singleton_append,
      run_append, run_cons, run_nil]
  refine ⟨b, (reported g source (ts.take n) {}).length, ?_, hname, ?_, ?_, ?_⟩
  · refine ⟨ts.take n, o, ts.drop (n + 1), hts, hlen.symm ▸ hmem, hreported,
      scopeAt g source ts (o, n), ?_, rfl, rfl, hsize ▸ hindex⟩
    rw [scopes_eq]
    exact List.mem_reverse.mpr (List.mem_map_of_mem hmem)
  · -- the braces further out stand in front of this one
    have htake : unclosed (ts.take n) = outer ++ between := unclosed_take hopen
    have hscopes : (outer ++ between).map (scopeAt g source ts) =
        (outer ++ between).map (scopeAt g source (ts.take n)) := by
      have happend : (unclosed (ts.take n)).map (scopeAt g source (ts.take n ++ ts.drop n)) =
          (unclosed (ts.take n)).map (scopeAt g source (ts.take n)) := scopeAt_append _ _
      rwa [List.take_append_drop, htake] at happend
    have hnone : between.filterMap (fun p => (scopeAt g source ts p).opener.segment?) = [] :=
      List.filterMap_eq_nil_iff.mpr hbetween
    calc b.path
        = ((outer ++ between).map (scopeAt g source (ts.take n))).filterMap
            (·.opener.segment?) := by
          rw [symbol?_path hreported, path_eq, htake, List.filterMap_map]
          rfl
      _ = (outer ++ between).filterMap fun p => (scopeAt g source ts p).opener.segment? := by
          rw [← hscopes, List.filterMap_map]
          rfl
      _ = (run g source ts {}).tracker.path.take i := by
          rw [List.filterMap_append, hnone, List.append_nil, houter, hpath]
  · rw [hall, List.length_append, List.length_cons]
    omega
  · rw [hall, List.getElem?_append_right (Nat.le_refl _), Nat.sub_self, List.getElem?_cons_zero]

end Scan

/-- **Enclosing paths are backed by symbols.** Where types are reported, the symbol with index `j`
is reported at a token in front of which every name on its path, the anonymous ones apart, was
added by a `{` that is still open: at that brace a symbol of that name was reported whose path are
the names before it. It comes earlier in the table, at the index `k` that the brace's scope
keeps. -/
theorem path_backed_by_symbols {g : Grammar} (hg : g.emitTypeSymbols = true)
    (source : List Char) {j : Nat} {a : Symbol} (ha : (scan g source).symbols[j]? = some a) :
    ∃ before t after, tokensOf g source = before ++ t :: after ∧
      (Scan.run g (String.ofList source) before {}).symbol? g (String.ofList source) t = some a ∧
      (Scan.reported g (String.ofList source) before {}).length = j ∧
      ∀ i segment, a.path[i]? = some segment → segment ≠ anonymousSegment →
        ∃ b k, Scan.OpenedWith g (String.ofList source) before b k ∧
          k < j ∧ (scan g source).symbols[k]? = some b ∧
          b.name = segment ∧ b.path = a.path.take i := by
  rw [scan_symbols] at ha ⊢
  obtain ⟨before, t, after, hts, hreported, hlen⟩ := Scan.exists_of_reported_getElem? ha
  refine ⟨before, t, after, hts, hreported, hlen, fun i segment hi hne => ?_⟩
  have hpath := Scan.symbol?_path hreported
  rw [hpath] at hi ⊢
  obtain ⟨b, k, hopened, hname, hb, hk, hget⟩ := Scan.openedWith_of_path hg hi hne
  refine ⟨b, k, hopened, hlen ▸ hk, ?_, hname, hb⟩
  rw [hts, Scan.reported_append, List.getElem?_append_left hk, hget]

/-- The symbol of a class stands in front of that of its method, and its brace is open there. -/
theorem path_backed_by_class :
    let g := Grammar.withTypeSymbols (.ofProfile .java) true
    let source := "class A { void f() { } }".toList
    let x : Symbol := {
      name := "f"
      kind := .method
      modifiers := []
      parameterText := ""
      startLine := 1
      span := ⟨15, 16, 1, 16⟩
      path := ["A"] }
    g.emitTypeSymbols = true ∧ (scan g source).symbols[1]? = some x ∧
      ∃ before b k, Scan.OpenedWith g (String.ofList source) before b k ∧ k < 1 ∧
        (scan g source).symbols[k]? = some b ∧ b.name = "A" ∧ b.path = [] := by
  intro g source x
  have hx : (scan g source).symbols[1]? = some x := by decide +kernel
  obtain ⟨before, t, after, -, -, -, hback⟩ := path_backed_by_symbols rfl source hx
  obtain ⟨b, k, hopened, hk, hb, hname, hpath⟩ := hback 0 "A" rfl (by decide)
  exact ⟨rfl, hx, before, b, k, hopened, hk, hb, hname, hpath⟩

end DeclTags
