import DeclTags.Proofs.Held
import DeclTags.Proofs.Layout
import DeclTags.Proofs.Reports

set_option autoImplicit false

/-! # Nothing is decided twice

A finding is a symbol or an ambiguity, together with the brace or semicolon where it is decided,
the candidate that decides it and the name in its header. Where there is one, the candidate is
dropped, and nothing that is held afterwards has a token of it. So the candidates of any two
findings have no token in common (`Scan.findings_disjoint`), and all the rest follows: their names
differ, and a candidate that is interrupted by a block has one finding at most, behind the block
(`findings_decided_once`).
-/

open scoped List

namespace DeclTags

/-- The decision is a symbol or an ambiguity. -/
def Decision.isReported (d : Decision) : Bool := d.symbol?.isSome || d.diagnostic?.isSome

/-- What is reported of a decision is a symbol or an ambiguity, not both. -/
theorem Decision.isReported_iff {d : Decision} :
    d.isReported = true ↔ d.symbol?.isSome ≠ d.diagnostic?.isSome := by
  cases d with
  | type name symbol => cases symbol <;> simp [isReported, symbol?, diagnostic?]
  | _ => simp [isReported, symbol?, diagnostic?]

theorem Decision.eq_none_of_not_isReported {d : Decision} (h : d.isReported = false) :
    d.symbol? = none ∧ d.diagnostic? = none := by
  rw [isReported, Bool.or_eq_false_iff, Option.isSome_eq_false_iff, Option.isSome_eq_false_iff,
    Option.isNone_iff_eq_none, Option.isNone_iff_eq_none] at h
  exact h

/-- What is reported of the decision is said of the token `n`. -/
structure Decision.IsNamed (d : Decision) (n : Token) : Prop where
  symbol : ∀ x, d.symbol? = some x → x.name = n.text ∧ x.span = .ofToken n
  diagnostic : ∀ e, d.diagnostic? = some e →
    ∃ reason, e = .ofKind .ambiguity n.line (Scan.ambiguityMessage n.text reason)

/-- A symbol or an ambiguity. -/
structure Finding where
  /-- The brace or semicolon where it is decided. -/
  cause : Token
  candidate : Candidate
  /-- The name in the header that decides it. -/
  name : Token
  decision : Decision
  deriving DecidableEq, Repr

/-! ## The name in a header -/

namespace Candidate

variable {g : Grammar} {source : String} {tracker : ScopeTracker} {c : Candidate}
  {run : List Token}

/-- The name in the header of a type or else of a callable, as a brace reads the candidate. -/
def nameAtBrace? (g : Grammar) (c : Candidate) : Option Token :=
  ((TypeHeader.ofRun? g c.tokens).map (·.name)).or
    ((CallableHeader.ofRun? g true c.tokens).map (·.name))

/-- The name in the header of a callable, as a semicolon reads the candidate. -/
def nameAtSemicolon? (g : Grammar) (c : Candidate) : Option Token :=
  (CallableHeader.ofRun? g (c.member g).2 (c.member g).1).map (·.name)

theorem typeDecision?_isNamed {h : TypeHeader} (hh : TypeHeader.ofRun? g run = some h) :
    ∃ d, c.typeDecision? g source tracker run = some d ∧ d.IsNamed h.name := by
  refine ⟨_, by rw [typeDecision?, hh, Option.map_some], ?_, ?_⟩
  · intro x hx
    simp only [Decision.symbol?] at hx
    split at hx
    · cases hx
      exact ⟨rfl, rfl⟩
    · cases hx
  · intro e he
    cases he

theorem callableDecision_isNamed {withBody : Bool}
    (hd : (c.callableDecision g source tracker withBody run).isReported = true) :
    ∃ h, CallableHeader.ofRun? g withBody run = some h ∧
      (c.callableDecision g source tracker withBody run).IsNamed h.name := by
  unfold callableDecision at hd ⊢
  cases hh : CallableHeader.ofRun? g withBody run with
  | none =>
      rw [hh] at hd
      cases hd
  | some h =>
      rw [hh] at hd
      simp only at hd ⊢
      refine ⟨h, rfl, ?_⟩
      split at hd
      · cases hd
      split
      · refine ⟨fun x hx => (nomatch hx), fun e he => ?_⟩
        cases he
        exact ⟨_, rfl⟩
      · refine ⟨fun x hx => ?_, fun e he => (nomatch he)⟩
        cases hx
        exact ⟨rfl, rfl⟩

/-- What a brace makes of a candidate is named in the candidate, which stands in no parentheses. -/
theorem atBrace_isNamed (hd : (c.atBrace g source tracker).isReported = true) :
    c.parenDepth = 0 ∧ ∃ n ∈ c.tokens, c.nameAtBrace? g = some n ∧
      (c.atBrace g source tracker).IsNamed n := by
  rcases atBrace_eq_getD g source tracker c with hnone | ⟨-, hdepth, heq⟩
  · simp only [List.mem_cons, List.not_mem_nil, or_false] at hnone
    rcases hnone with h | h | h <;>
    · rw [h] at hd
      cases hd
  refine ⟨hdepth, ?_⟩
  rw [heq] at hd ⊢
  cases hh : TypeHeader.ofRun? g c.tokens with
  | some h =>
      obtain ⟨d, htype, hnamed⟩ : ∃ d, c.typeDecision? g source tracker c.tokens = some d ∧
          d.IsNamed h.name := typeDecision?_isNamed hh
      rw [htype, Option.getD_some]
      exact ⟨h.name, (TypeHeader.ofRun?_mem hh).1, by simp [nameAtBrace?, hh], hnamed⟩
  | none =>
      have htype : c.typeDecision? g source tracker c.tokens = none := by
        rw [typeDecision?, hh, Option.map_none]
      rw [htype, Option.getD_none] at hd ⊢
      obtain ⟨h, hcall, hnamed⟩ := callableDecision_isNamed hd
      exact ⟨h.name, (CallableHeader.ofRun?_mem hcall).1, by simp [nameAtBrace?, hh, hcall],
        hnamed⟩

/-- What a semicolon makes of a candidate is named in the candidate. -/
theorem atSemicolon?_isNamed {d : Decision} (h : c.atSemicolon? g source tracker = some d)
    (hd : d.isReported = true) :
    ∃ n ∈ c.tokens, c.nameAtSemicolon? g = some n ∧ d.IsNamed n := by
  obtain ⟨-, -, rfl⟩ := atSemicolon?_cases h
  obtain ⟨h, hcall, hnamed⟩ := callableDecision_isNamed hd
  exact ⟨h.name, (c.member_initial g).subset (CallableHeader.ofRun?_mem hcall).1,
    by rw [nameAtSemicolon?, hcall, Option.map_some], hnamed⟩

end Candidate

namespace Scan

variable {g : Grammar} {source : String} {s : Scan} {t : Token} {f : Finding}

/-! ## One token -/

/-- The name that the candidate has where `t` decides. -/
def name? (g : Grammar) (s : Scan) (t : Token) : Option Token :=
  if t.isPunct '{' then s.recognizer.candidate.nameAtBrace? g
  else s.recognizer.candidate.nameAtSemicolon? g

/-- The symbol or ambiguity that is decided at a token. -/
def finding? (g : Grammar) (source : String) (s : Scan) (t : Token) : Option Finding :=
  ((s.decision? g source t).filter Decision.isReported).bind fun d =>
    (s.name? g t).map fun n => ⟨t, s.recognizer.candidate, n, d⟩

/-- Where something is reported, the candidate has a name and stands in no parentheses. -/
theorem decision?_isNamed {d : Decision} (h : s.decision? g source t = some d)
    (hd : d.isReported = true) :
    (t.isPunct '{' = true ∨ t.isPunct ';' = true) ∧ s.recognizer.inParenGroup = false ∧
      ∃ n ∈ s.recognizer.candidate.tokens, s.name? g t = some n ∧ d.IsNamed n := by
  rcases decision?_cases h with ⟨ho, rfl⟩ | ⟨hs, hparen, hat⟩
  · obtain ⟨hdepth, n, hn, hname, hnamed⟩ := Candidate.atBrace_isNamed hd
    exact ⟨.inl ho, by simp [Recognizer.inParenGroup, hdepth], n, hn,
      by rw [name?, if_pos ho, hname], hnamed⟩
  · obtain ⟨n, hn, hname, hnamed⟩ := Candidate.atSemicolon?_isNamed hat hd
    have hne : ¬t.isPunct '{' = true := by simp [Token.not_isPunct_of_ne hs]
    exact ⟨.inr hs, hparen, n, hn, by rw [name?, if_neg hne, hname], hnamed⟩

/-- A finding is a decision that is reported, with its name. -/
theorem finding?_eq_some_iff :
    s.finding? g source t = some f ↔
      f.cause = t ∧ f.candidate = s.recognizer.candidate ∧
        s.decision? g source t = some f.decision ∧ f.decision.isReported = true ∧
        s.name? g t = some f.name := by
  simp only [finding?, Option.bind_eq_some_iff, Option.filter_eq_some_iff, Option.map_eq_some_iff]
  constructor
  · rintro ⟨d, ⟨hd, hreported⟩, n, hn, rfl⟩
    exact ⟨rfl, rfl, hd, hreported, hn⟩
  · rintro ⟨rfl, hc, hd, hreported, hn⟩
    exact ⟨f.decision, ⟨hd, hreported⟩, f.name, hn, by rw [← hc]⟩

theorem finding?_sound (h : s.finding? g source t = some f) :
    (t.isPunct '{' = true ∨ t.isPunct ';' = true) ∧ s.recognizer.inParenGroup = false ∧
      f.name ∈ f.candidate.tokens ∧ f.decision.IsNamed f.name := by
  obtain ⟨-, hcandidate, hd, hreported, hname⟩ := finding?_eq_some_iff.mp h
  obtain ⟨hpunct, hparen, n, hn, hname', hnamed⟩ := decision?_isNamed hd hreported
  obtain rfl : n = f.name := Option.some.inj (hname'.symm.trans hname)
  exact ⟨hpunct, hparen, hcandidate ▸ hn, hnamed⟩

/-- Every decision that is reported is a finding. -/
theorem finding?_decision :
    (s.finding? g source t).map (·.decision) =
      (s.decision? g source t).filter Decision.isReported := by
  unfold finding?
  cases hd : (s.decision? g source t).filter Decision.isReported with
  | none => rfl
  | some d =>
      obtain ⟨hd, hreported⟩ := Option.filter_eq_some_iff.mp hd
      obtain ⟨-, -, n, -, hname, -⟩ := decision?_isNamed hd hreported
      rw [Option.bind_some, hname]
      rfl

/-- What is reported at a token of a kind that only decisions have is that of its finding. -/
theorem finding?_bind {α : Type} {part : Decision → Option α}
    (hpart : ∀ d, d.isReported = false → part d = none) :
    (s.finding? g source t).bind (fun f => part f.decision) =
      (s.decision? g source t).bind part := by
  have hmap : (s.finding? g source t).bind (fun f => part f.decision) =
      ((s.finding? g source t).map (·.decision)).bind part := by
    cases s.finding? g source t <;> rfl
  rw [hmap, finding?_decision]
  cases s.decision? g source t with
  | none => rfl
  | some d =>
      by_cases hd : d.isReported = true
      · rw [Option.filter_some, if_pos hd]
      · rw [Option.filter_some, if_neg hd, Option.bind_some, hpart d (Bool.eq_false_iff.mpr hd)]
        rfl

/-- Where something is decided, the candidate is dropped. -/
theorem feed_held_of_finding (h : s.finding? g source t = some f) :
    (s.feed g source t).recognizer.held = s.recognizer.suspendedTokens := by
  obtain ⟨hpunct, hparen, -⟩ := finding?_sound h
  exact feed_held_of_dropped hpunct hparen

/-! ## All tokens -/

/-- The symbols and ambiguities that are decided at some tokens, one after another. -/
def findings (g : Grammar) (source : String) : List Token → Scan → List Finding
  | [], _ => []
  | t :: ts, s => (s.finding? g source t).toList ++ findings g source ts (s.feed g source t)

theorem findings_append (ts us : List Token) :
    findings g source (ts ++ us) s =
      findings g source ts s ++ findings g source us (run g source ts s) := by
  induction ts generalizing s with
  | nil => rfl
  | cons t ts ih => rw [List.cons_append, findings, findings, ih, List.append_assoc, run_cons]

/-- What is decided is decided at some token. -/
theorem mem_findings_iff {ts : List Token} :
    f ∈ findings g source ts s ↔
      ∃ before t after, ts = before ++ t :: after ∧
        (run g source before s).finding? g source t = some f := by
  constructor
  · intro h
    induction ts generalizing s with
    | nil => cases h
    | cons t ts ih =>
        rcases List.mem_append.mp h with h | h
        · exact ⟨[], t, ts, rfl, Option.mem_toList.mp h⟩
        · obtain ⟨before, u, after, rfl, hu⟩ := ih h
          exact ⟨t :: before, u, after, rfl, hu⟩
  · rintro ⟨before, t, after, rfl, h⟩
    rw [findings_append, findings, h]
    exact List.mem_append_right _ List.mem_cons_self

theorem filterMap_findings_cons {α : Type} (part : Finding → Option α) (ts : List Token) :
    (findings g source (t :: ts) s).filterMap part =
      ((s.finding? g source t).bind part).toList ++
        (findings g source ts (s.feed g source t)).filterMap part := by
  rw [findings, List.filterMap_append]
  cases s.finding? g source t with
  | none => rfl
  | some f => cases hpart : part f <;> simp [hpart]

/-- The symbols that are reported are those of the findings. -/
theorem reported_eq_findings (ts : List Token) :
    reported g source ts s = (findings g source ts s).filterMap (·.decision.symbol?) := by
  induction ts generalizing s with
  | nil => rfl
  | cons t ts ih =>
      have hhead : s.symbol? g source t = (s.finding? g source t).bind (·.decision.symbol?) :=
        (finding?_bind fun _ hd => (Decision.eq_none_of_not_isReported hd).1).symm
      rw [reported_cons, ih, filterMap_findings_cons, hhead]

/-- Of the diagnostics at a token only that of a decision is about an ambiguity. -/
theorem notice?_filter_ambiguity :
    (s.notice? g source t).filter (·.kind == .ambiguity) =
      (s.finding? g source t).bind (·.decision.diagnostic?) := by
  rw [finding?_bind fun _ hd => (Decision.eq_none_of_not_isReported hd).2]
  unfold notice?
  split
  · next hc =>
    rw [decision?_of_closing hc]
    split <;> rfl
  split
  · next d hd =>
    rw [hd, Option.bind_some]
    cases d <;> rfl
  · next hd =>
    rw [hd]
    unfold openEnd?
    split
    · rfl
    · split <;> rfl

/-- The ambiguities that are reported are those of the findings. -/
theorem notices_filter_ambiguity (ts : List Token) :
    (notices g source ts s).filter (·.kind == .ambiguity) =
      (findings g source ts s).filterMap (·.decision.diagnostic?) := by
  induction ts generalizing s with
  | nil => rfl
  | cons t ts ih =>
      have hhead : (s.notice? g source t).toList.filter (·.kind == .ambiguity) =
          ((s.finding? g source t).bind (·.decision.diagnostic?)).toList := by
        rw [← notice?_filter_ambiguity, Option.toList_filter]
      rw [notices, List.filter_append, hhead, ih, filterMap_findings_cons]

/-! ## The candidates that decide -/

/-- What decides is held before, or comes later. -/
theorem findings_candidate_subset {ts : List Token} (h : f ∈ findings g source ts s) :
    f.candidate.tokens ⊆ s.recognizer.held ++ ts := by
  obtain ⟨before, t, after, rfl, hf⟩ := mem_findings_iff.mp h
  have hheld : (run g source before s).recognizer.candidate.tokens <+
      s.recognizer.held ++ before :=
    (List.sublist_append_right _ _).trans (run_held_sublist before)
  rw [(finding?_eq_some_iff.mp hf).2.1, ← List.append_assoc]
  exact fun u hu => List.mem_append_left _ (hheld.subset hu)

/-- Where something is decided, no token of the candidate is held any longer, if none is fed
twice. -/
theorem dropped_disjoint {ts : List Token} (h : (s.recognizer.held ++ t :: ts).Nodup)
    (hf : s.finding? g source t = some f) :
    f.candidate.tokens.Disjoint ((s.feed g source t).recognizer.held ++ ts) := by
  rw [feed_held_of_finding hf, (finding?_eq_some_iff.mp hf).2.1]
  rw [Recognizer.held, List.append_assoc, List.nodup_append] at h
  obtain ⟨-, hcandidate, hsuspended⟩ := h
  intro u hu hlater
  rcases List.mem_append.mp hlater with hu' | hu'
  · exact hsuspended u hu' u (List.mem_append_left _ hu) rfl
  · exact (List.nodup_append.mp hcandidate).2.2 u hu u (List.mem_cons_of_mem t hu') rfl

/-- **The candidates of two findings have no token in common**, if no token is fed twice. -/
theorem findings_disjoint {ts : List Token} (h : (s.recognizer.held ++ ts).Nodup) :
    (findings g source ts s).Pairwise
      fun a b => a.candidate.tokens.Disjoint b.candidate.tokens := by
  induction ts generalizing s with
  | nil => exact .nil
  | cons t ts ih =>
      have hheld : (s.feed g source t).recognizer.held ++ ts <+ s.recognizer.held ++ t :: ts := by
        rw [List.append_cons]
        exact feed_held_sublist.append (List.Sublist.refl ts)
      have hrest := ih (h.sublist hheld)
      rw [findings]
      cases hf : s.finding? g source t with
      | none => exact hrest
      | some a =>
          refine List.pairwise_cons.mpr ⟨fun b hb => ?_, hrest⟩
          -- what is decided later is held then or comes later, and the candidate is neither
          exact List.disjoint_of_subset_right (findings_candidate_subset hb) (dropped_disjoint h hf)

/-- What has decided is not held any longer. -/
theorem held_disjoint_of_finding {ts : List Token} (h : (s.recognizer.held ++ ts).Nodup)
    (hf : f ∈ findings g source ts s) :
    f.candidate.tokens.Disjoint (run g source ts s).recognizer.held := by
  obtain ⟨before, t, after, rfl, ht⟩ := mem_findings_iff.mp hf
  have hnodup : ((run g source before s).recognizer.held ++ t :: after).Nodup := by
    rw [← List.append_assoc] at h
    exact h.sublist ((run_held_sublist before).append (List.Sublist.refl _))
  rw [run_append, run_cons]
  exact List.disjoint_of_subset_right (run_held_sublist after).subset (dropped_disjoint hnodup ht)

/-- A finding has a name, and that is a token of its candidate. -/
theorem name_mem_of_mem_findings {ts : List Token} (h : f ∈ findings g source ts s) :
    f.name ∈ f.candidate.tokens := by
  obtain ⟨_, _, _, -, hf⟩ := mem_findings_iff.mp h
  exact (finding?_sound hf).2.2.1

/-- A finding is reported, and said of its name. -/
theorem isNamed_of_mem_findings {ts : List Token} (h : f ∈ findings g source ts s) :
    f.decision.isReported = true ∧ f.decision.IsNamed f.name := by
  obtain ⟨_, _, _, -, hf⟩ := mem_findings_iff.mp h
  exact ⟨(finding?_eq_some_iff.mp hf).2.2.2.1, (finding?_sound hf).2.2.2⟩

/-- No two findings have the same name. -/
theorem findings_names_nodup {ts : List Token} (h : (s.recognizer.held ++ ts).Nodup) :
    ((findings g source ts s).map Finding.name).Nodup := by
  rw [List.Nodup, List.pairwise_map]
  refine (findings_disjoint h).imp_of_mem fun ha hb hdisjoint heq => ?_
  exact hdisjoint (name_mem_of_mem_findings ha) (heq ▸ name_mem_of_mem_findings hb)

/-- No two findings have candidates with the same first token. -/
theorem findings_first_nodup {ts : List Token} (h : (s.recognizer.held ++ ts).Nodup) :
    ((findings g source ts s).map (·.candidate.tokens.head?)).Nodup := by
  rw [List.Nodup, List.pairwise_map]
  refine (findings_disjoint h).imp_of_mem fun {a b} ha hb hdisjoint heq => ?_
  obtain ⟨first, rest, hfirst⟩ :=
    List.exists_cons_of_ne_nil (List.ne_nil_of_mem (name_mem_of_mem_findings ha))
  have hb' : b.candidate.tokens.head? = some first := by rw [← heq, hfirst, List.head?_cons]
  exact hdisjoint (hfirst ▸ List.mem_cons_self) (List.mem_of_head? hb')

/-- Not more than one finding has a candidate with a given first token. -/
theorem countP_first_le_one {ts : List Token} (h : (s.recognizer.held ++ ts).Nodup)
    (first : Option Token) :
    (findings g source ts s).countP (·.candidate.tokens.head? == first) ≤ 1 := by
  have hfirsts : ((findings g source ts s).map (·.candidate.tokens.head?)).Nodup :=
    findings_first_nodup h
  have hcount := List.nodup_iff_count.mp hfirsts first
  rwa [List.count, List.countP_map] at hcount

/-- Each finding has its own brace or semicolon. -/
theorem findings_causes (g : Grammar) (source : String) (ts : List Token) (s : Scan) :
    (findings g source ts s).map Finding.cause <+
      ts.filter fun t => t.isPunct '{' || t.isPunct ';' := by
  induction ts generalizing s with
  | nil => exact .slnil
  | cons t ts ih =>
      rw [findings, List.map_append]
      cases hf : s.finding? g source t with
      | none => exact (ih _).trans ((List.sublist_cons_self t ts).filter _)
      | some f =>
          have hpunct := (finding?_sound hf).1
          rw [List.filter_cons_of_pos (by simpa using hpunct), Option.toList_some,
            List.map_singleton, (finding?_eq_some_iff.mp hf).1]
          exact (ih _).cons_cons t

/-! ## Interrupted candidates -/

/-- A candidate that a brace interrupts is suspended as long as the brace is open. -/
theorem candidate_mem_suspended {before part : List Token} {brace : Token}
    (ho : brace.isPunct '{' = true)
    (hparen : (run g source before {}).recognizer.inParenGroup = true)
    (hopen : ¬∃ j, Partners (before ++ brace :: part) before.length j) :
    ∃ w ∈ (run g source (before ++ brace :: part) {}).recognizer.suspended,
      w.candidate = (run g source before {}).recognizer.candidate := by
  have hmem : (brace, before.length) ∈ unclosed (before ++ brace :: part) := by
    rw [unclosed, List.mem_filter, List.mk_mem_zipIdx_iff_getElem?]
    exact ⟨by simp, by simpa [ho] using hopen⟩
  have hwaiting : waiting? g source ((before ++ brace :: part).take before.length) =
      some ⟨(run g source before {}).tracker.depth,
        (run g source before {}).recognizer.candidate⟩ := by
    rw [List.take_left, waiting?]
    exact if_pos hparen
  refine ⟨⟨(run g source before {}).tracker.depth, _⟩, ?_, rfl⟩
  rw [suspended_eq_interrupted, interrupted]
  exact List.mem_filterMap.mpr ⟨_, List.mem_reverse.mpr hmem, hwaiting⟩

/-- A suspended candidate has no token in common with the candidate, if no token is fed twice. -/
theorem suspended_disjoint {ts : List Token} (hts : ts.Nodup) {w : Suspended}
    (hw : w ∈ (run g source ts {}).recognizer.suspended) :
    w.candidate.tokens.Disjoint (run g source ts {}).recognizer.candidate.tokens := by
  have hheld : (run g source ts {}).recognizer.held <+ ts := run_held_sublist ts
  intro u huw hu
  have hsuspended : u ∈ (run g source ts {}).recognizer.suspendedTokens :=
    List.mem_flatMap.mpr ⟨w, List.mem_reverse.mpr hw, huw⟩
  exact (List.nodup_append.mp (hts.sublist hheld)).2.2 u hsuspended u hu rfl

/-- If a candidate decides that shares a token with the one that a brace interrupts, the brace has
been closed. -/
theorem exists_partner_of_finding {before part : List Token} {brace t first : Token}
    (hts : (before ++ brace :: part).Nodup) (hbrace : brace.isPunct '{' = true)
    (hparen : (run g source before {}).recognizer.inParenGroup = true)
    (ht : (run g source (before ++ brace :: part) {}).finding? g source t = some f)
    (hmem : first ∈ f.candidate.tokens)
    (hheld : first ∈ (run g source before {}).recognizer.candidate.tokens) :
    ∃ j, Partners (before ++ brace :: part) before.length j := by
  by_contra hopen
  obtain ⟨w, hw, heq⟩ := candidate_mem_suspended hbrace hparen hopen
  have hdisjoint := suspended_disjoint hts hw
  rw [heq, ← (finding?_eq_some_iff.mp ht).2.1] at hdisjoint
  exact hdisjoint hheld hmem

/-- **An interrupted candidate decides behind the block.** If a brace interrupts a candidate, then
whatever is decided by a candidate with the same first token is decided behind the partner of the
brace. -/
theorem finding_behind_block {before after : List Token} {brace : Token}
    (hts : (before ++ brace :: after).Nodup) (hbrace : brace.isPunct '{' = true)
    (hparen : (run g source before {}).recognizer.inParenGroup = true)
    (hf : f ∈ findings g source (before ++ brace :: after) {})
    (hfirst : f.candidate.tokens.head? =
      (run g source before {}).recognizer.candidate.tokens.head?) :
    ∃ inner c rest, after = inner ++ c :: rest ∧ c.isPunct '}' = true ∧ Balanced inner ∧
      f ∈ findings g source rest (run g source (before ++ brace :: inner ++ [c]) {}) := by
  have hshared : ∃ first ∈ f.candidate.tokens,
      first ∈ (run g source before {}).recognizer.candidate.tokens := by
    obtain ⟨first, tail, htokens⟩ :=
      List.exists_cons_of_ne_nil (List.ne_nil_of_mem (name_mem_of_mem_findings hf))
    rw [htokens, List.head?_cons, eq_comm] at hfirst
    exact ⟨first, htokens ▸ List.mem_cons_self, List.mem_of_head? hfirst⟩
  obtain ⟨first, hmem, hheld⟩ := hshared
  rw [findings_append, List.mem_append] at hf
  rcases hf with hf | hf
  · -- what has decided before is not held at the brace
    have hbefore : (({} : Scan).recognizer.held ++ before).Nodup :=
      hts.sublist (List.sublist_append_left _ _)
    exact absurd (List.mem_append_right _ hheld) (held_disjoint_of_finding hbefore hf hmem)
  obtain ⟨part, t, rest, hsplit, ht⟩ := mem_findings_iff.mp hf
  rcases part with - | ⟨b, part⟩
  · -- at the brace itself nothing is decided in parentheses
    have hnot := (finding?_sound ht).2.1
    rw [run_nil, hparen] at hnot
    cases hnot
  obtain ⟨rfl, hafter⟩ := List.cons.inj hsplit
  rw [← run_append] at ht
  have hpart : (before ++ brace :: part).Nodup := by
    refine hts.sublist ?_
    rw [hafter]
    simp
  obtain ⟨j, before', b', inner, c, rest', heq, -, hc, hinner, hlength, -⟩ :=
    exists_partner_of_finding hpart hbrace hparen ht hmem hheld
  have heq' : before' ++ b' :: (inner ++ c :: rest') = before ++ brace :: part := by
    rw [heq]
    simp
  obtain ⟨rfl, hrest⟩ := List.append_inj heq' hlength.symm
  obtain ⟨rfl, rfl⟩ := List.cons.inj hrest
  refine ⟨inner, c, rest' ++ t :: rest, by rw [hafter]; simp, hc, hinner, ?_⟩
  refine mem_findings_iff.mpr ⟨rest', t, rest, rfl, ?_⟩
  rw [← run_append]
  simpa using ht

end Scan

/-! ## The findings of a scan -/

/-- Different tokens of a source have no byte in common. -/
theorem InOrder.disjoint {ts : List Token} (h : InOrder ts) {a b : Token} (ha : a ∈ ts)
    (hb : b ∈ ts) (hne : a ≠ b) : a.stop ≤ b.start ∨ b.stop ≤ a.start := by
  have hsymmetric : Std.Symm fun a b : Token => a.stop ≤ b.start ∨ b.stop ≤ a.start :=
    ⟨fun _ _ => Or.symm⟩
  have hpairwise : ts.Pairwise fun a b => a.stop ≤ b.start ∨ b.stop ≤ a.start :=
    h.imp fun hab => .inl hab.2
  exact hpairwise.forall ha hb hne

/-- The places of the symbols that are found do not overlap. -/
theorem Scan.findings_spans_disjoint {g : Grammar} {source : String} {ts : List Token}
    (h : InOrder ts) :
    ((findings g source ts {}).filterMap (·.decision.symbol?)).Pairwise fun a b =>
      a.span.endByte ≤ b.span.startByte ∨ b.span.endByte ≤ a.span.startByte := by
  have hnodup : (({} : Scan).recognizer.held ++ ts).Nodup := h.nodup
  have hmem : ∀ f ∈ findings g source ts {}, f.name ∈ ts := fun f hf =>
    findings_candidate_subset hf (name_mem_of_mem_findings hf)
  rw [List.pairwise_filterMap]
  refine (List.pairwise_map.mp (findings_names_nodup hnodup)).imp_of_mem ?_
  intro a b ha hb hne x hx y hy
  rw [((isNamed_of_mem_findings ha).2.symbol x hx).2,
    ((isNamed_of_mem_findings hb).2.symbol y hy).2]
  exact h.disjoint (hmem a ha) (hmem b hb) hne

/-- The ambiguities that a scan reports are those of the findings. -/
theorem scan_ambiguities (g : Grammar) (source : List Char) :
    (scan g source).diagnosticsOf .ambiguity =
      (Scan.findings g (String.ofList source) (tokensOf g source) {}).filterMap
        (·.decision.diagnostic?) := by
  obtain ⟨endLine, hall, -⟩ := scan_diagnostics g source
  have hend : (endReport? endLine (tokensOf g source)).toList.filter (·.kind == .ambiguity) =
      [] := by
    rw [List.filter_eq_nil_iff]
    intro d hd
    rcases endReport?_isEndOfInput (Option.mem_toList.mp hd) with hd | ⟨hd, -⟩ <;> simp [hd]
  rw [ScanResult.diagnosticsOf, hall, List.filter_append, hend, List.append_nil,
    Scan.notices_filter_ambiguity]

/-- **Nothing is decided twice.** The symbols and ambiguities of a scan are its findings: each is
one symbol or one ambiguity, said of a token of the source. No two have the same token for a name,
so the places of the symbols are disjoint. Each has its own brace or semicolon. And no two are
decided by candidates with the same first token: if a brace interrupts a candidate in its
parentheses, that candidate decides once at most, behind the partner of the brace. -/
theorem findings_decided_once (g : Grammar) (source : List Char) :
    let text := String.ofList source
    let ts := tokensOf g source
    let found := Scan.findings g text ts {}
    (scan g source).symbols = found.filterMap (·.decision.symbol?) ∧
    (scan g source).diagnosticsOf .ambiguity = found.filterMap (·.decision.diagnostic?) ∧
    (∀ f ∈ found, f.decision.symbol?.isSome ≠ f.decision.diagnostic?.isSome ∧
      f.decision.IsNamed f.name ∧ f.name ∈ ts) ∧
    (found.map Finding.name).Nodup ∧
    (scan g source).symbols.Pairwise (fun a b =>
      a.span.endByte ≤ b.span.startByte ∨ b.span.endByte ≤ a.span.startByte) ∧
    (found.map Finding.cause).Nodup ∧
    found.map Finding.cause <+ ts.filter (fun t => t.isPunct '{' || t.isPunct ';') ∧
    ∀ before brace after, ts = before ++ brace :: after → brace.isPunct '{' = true →
      let c := (Scan.run g text before {}).recognizer.candidate
      0 < c.parenDepth →
      found.countP (·.candidate.tokens.head? == c.tokens.head?) ≤ 1 ∧
      ∀ f ∈ found, f.candidate.tokens.head? = c.tokens.head? →
        ∃ inner closing rest, after = inner ++ closing :: rest ∧ closing.isPunct '}' = true ∧
          Balanced inner ∧
          f ∈ Scan.findings g text rest
            (Scan.run g text (before ++ brace :: inner ++ [closing]) {}) := by
  intro text ts found
  have horder : InOrder ts := Lexer.tokens_inOrder g (Lexer.ofSource source)
  have hnodup : (({} : Scan).recognizer.held ++ ts).Nodup := horder.nodup
  have hsymbols : (scan g source).symbols = found.filterMap (·.decision.symbol?) :=
    (scan_symbols g source).trans (Scan.reported_eq_findings ts)
  have hcauses := Scan.findings_causes g text ts {}
  refine ⟨hsymbols, scan_ambiguities g source, ?_, Scan.findings_names_nodup hnodup,
    hsymbols ▸ Scan.findings_spans_disjoint horder,
    (horder.nodup.sublist List.filter_sublist).sublist hcauses, hcauses, ?_⟩
  · intro f hf
    obtain ⟨hreported, hnamed⟩ := Scan.isNamed_of_mem_findings hf
    exact ⟨Decision.isReported_iff.mp hreported, hnamed,
      Scan.findings_candidate_subset hf (Scan.name_mem_of_mem_findings hf)⟩
  · intro before brace after hsplit hbrace c hparen
    refine ⟨Scan.countP_first_le_one hnodup _, fun f hf hfirst => ?_⟩
    have hts : (before ++ brace :: after).Nodup := hsplit ▸ horder.nodup
    refine Scan.finding_behind_block hts hbrace ?_ (hsplit ▸ hf) hfirst
    simpa [Recognizer.inParenGroup] using hparen

end DeclTags
