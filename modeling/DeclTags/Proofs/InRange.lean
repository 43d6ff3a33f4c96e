import DeclTags.Profile.Builtin
import DeclTags.Proofs.Held
import DeclTags.Proofs.Leadings
import DeclTags.Proofs.Places
import DeclTags.Proofs.Searches

set_option autoImplicit false

/-! # No access is out of range

If the tokens of a candidate are parts of the source, each behind the one before it, then reading it
by position succeeds and decides what is decided without positions (`Positions.atBrace_eq`,
`Positions.atSemicolon?_eq`): the searches find indices of the run, and the texts that are cut out
stand between the brackets of a group, the opening one of which comes first.

What a recognizer holds is always made of the tokens that it was given, in their order
(`Recognizer.handle_held_sublist`), so this is so at every event
(`recognizer_never_out_of_range`).
-/

open scoped List

namespace DeclTags

/-- The tokens are parts of the source, each behind the one before it. -/
structure InPlace (source : List Char) (run : List Token) : Prop where
  isPart : ∀ t ∈ run, t.IsPart source
  ordered : run.Pairwise fun t u => t.stop ≤ u.start

theorem InPlace.mono {source : List Char} {run part : List Token} (h : InPlace source run)
    (hpart : part <+ run) : InPlace source part :=
  ⟨fun t ht => h.isPart t (hpart.subset ht), h.ordered.sublist hpart⟩

namespace Positions

open DeclTags.Bracket

variable {run : List Token} {g : Grammar} {source : List Char} {tracker : ScopeTracker}
  {c : Candidate}

/-! ## Texts -/

/-- The text between the brackets of a group can be cut out. -/
theorem GroupAt.text {b : Bracket} {opening close : Nat} {group : List Token}
    (hrun : InPlace source run) (h : GroupAt b run opening close group) :
    (do
      let o ← tokenAt run opening
      let e ← tokenAt run close
      textBetween (String.ofList source) o.stop e.start) =
      .ok (groupText (String.ofList source) group) := by
  obtain ⟨o, inner, e, rfl, ho, he, -⟩ := h.ends
  have hgroup := hrun.mono h.sublist
  have hle : o.stop ≤ e.start := List.rel_of_pairwise_cons hgroup.ordered (by simp)
  have htext : groupText (String.ofList source) (o :: inner ++ [e]) =
      Text.slice o.stop e.start (String.ofList source) := by
    rw [groupText, List.getLast?_concat]
    rfl
  rw [tokenAt_eq ho, Checked.ok_bind, tokenAt_eq he, Checked.ok_bind, htext,
    textBetween_eq hle (hgroup.isPart o (by simp)).2 (hgroup.isPart e (by simp)).1]

/-! ## Types -/

/-- The components are looked for behind the type parameters. -/
theorem afterTypeParameters_drop (run : List Token) (i : Nat) :
    TypeHeader.afterTypeParameters (run.drop i) = run.drop
      (if run[i]?.any (·.isPunct '<') then ((closing? .angles run i).map (· + 1)).getD run.length
      else i) := by
  rw [TypeHeader.afterTypeParameters, List.head?_drop]
  split
  · next hangle =>
    obtain ⟨t, ht, hopen⟩ := (Option.any_eq_true _ _).mp hangle
    have hfound := closing?_spec (b := angles) (by decide) ht hopen
    generalize closing? .angles run i = found at hfound ⊢
    cases hfound with
    | none hsplit => rw [hsplit]; simp
    | some _ hsplit => rw [hsplit]; rfl
  · rfl

theorem componentText_eq (h : InPlace source run) {header : TypeHeader} {i : Nat}
    (hrest : header.rest = run.drop i) :
    componentText (String.ofList source) run i =
      .ok (header.componentText (String.ofList source)) := by
  rw [TypeHeader.componentText, hrest, afterTypeParameters_drop, componentText]
  generalize (if run[i]?.any (·.isPunct '<') then
    ((closing? .angles run i).map (· + 1)).getD run.length else i) = after
  cases ht : run[after]? with
  | none =>
      rw [List.drop_of_length_le (List.getElem?_eq_none_iff.mp ht)]
      rfl
  | some t =>
      by_cases ho : t.isPunct '(' = true
      · rw [Option.filter_some, if_pos ho]
        have hfound := closing?_spec (b := parens) (by decide) ht ho
        generalize closing? .parens run after = found at hfound ⊢
        cases hfound with
        | none hsplit => rw [hsplit]; rfl
        | @some close group hat hsplit =>
            have htext := hat.text h
            rw [tokenAt_eq ht, Checked.ok_bind] at htext
            rw [hsplit]
            exact htext
      · have hsplit : parens.splitGroup? (run.drop after) = none := by
          rw [splitGroup?, List.head?_drop, ht]
          exact if_neg ho
        rw [Option.filter_some, if_neg ho, hsplit]
        rfl

theorem typeDecision?_eq (h : InPlace source run) :
    typeDecision? g (String.ofList source) tracker run c =
      .ok (c.typeDecision? g (String.ofList source) tracker run) := by
  rw [typeDecision?, Candidate.typeDecision?, TypeHeader.ofRun?]
  have hrest : (if (run.drop (Leading.ofRun g run).size).head?.any (·.isPunct '@') then
        (run.drop (Leading.ofRun g run).size).tail else run.drop (Leading.ofRun g run).size) =
      run.drop (if run[(Leading.ofRun g run).size]?.any (·.isPunct '@') then
        (Leading.ofRun g run).size + 1 else (Leading.ofRun g run).size) := by
    rw [List.head?_drop, List.tail_drop]
    split <;> rfl
  simp only [hrest]
  generalize (if run[(Leading.ofRun g run).size]?.any (·.isPunct '@') then
    (Leading.ofRun g run).size + 1 else (Leading.ofRun g run).size) = i
  by_cases hi : i + 1 < run.length
  · have hlt : i < run.length := Nat.lt_of_succ_lt hi
    rw [List.drop_eq_getElem_cons hlt, List.drop_eq_getElem_cons hi,
      List.getElem?_eq_getElem hlt, List.getElem?_eq_getElem hi]
    have hfirst : run[0]? = some run[0] := List.getElem?_eq_getElem (Nat.zero_lt_of_lt hlt)
    have htext : componentText (String.ofList source) run (i + 2) =
        .ok (TypeHeader.componentText (String.ofList source)
          ⟨(Leading.ofRun g run).modifiers, run[i + 1], run.drop (i + 2)⟩) :=
      componentText_eq h rfl
    show (if _ then (if g.emitTypeSymbols then _ else _) else _) =
      Except.ok (Option.map _ (if _ then _ else _))
    split
    · rw [htext, Checked.ok_bind, tokenAt_eq hfirst, Checked.ok_bind, Option.map_some,
        List.head?_eq_getElem?, hfirst]
      split <;> rfl
    · rfl
  · rw [List.getElem?_eq_none (Nat.le_of_not_lt hi)]
    have hlen : (run.drop i).length ≤ 1 := by
      rw [List.length_drop]
      omega
    generalize run.drop i = rest at hlen ⊢
    cases rest with
    | nil => cases run[i]? <;> rfl
    | cons t rest =>
        have hnil : rest = [] := by simpa using hlen
        rw [hnil]
        cases run[i]? <;> rfl

/-! ## Callables -/

/-- The leading part is a part of the run. -/
theorem leading_size_le (g : Grammar) (run : List Token) :
    (Leading.ofRun g run).size ≤ run.length := by
  obtain ⟨leading, rest, words, hrun, -, hleading⟩ := Leading.ofRun_sound g run
  rw [hleading, hrun, List.length_append]
  exact Nat.le_add_right _ _

/-- A group at the beginning of a part of the run begins all that follows. -/
theorem splitGroup?_drop {b : Bracket} (hb : b.opening ≠ b.closing) {start n : Nat}
    (hle : start ≤ n) (hn : n ≤ run.length) {group rest : List Token}
    (h : b.splitGroup? ((run.take n).drop start) = some (group, rest)) :
    b.splitGroup? (run.drop start) = some (group, rest ++ run.drop n) := by
  obtain ⟨hgroup, hsplit⟩ := (splitGroup?_eq_some_iff hb).mp h
  have hlen : start ≤ (run.take n).length := by rwa [List.length_take_of_le hn]
  refine (splitGroup?_eq_some_iff hb).mpr ⟨hgroup, ?_⟩
  calc run.drop start = (run.take n ++ run.drop n).drop start := by rw [List.take_append_drop]
    _ = (run.take n).drop start ++ run.drop n := List.drop_append_of_le_length hlen
    _ = group ++ (rest ++ run.drop n) := by rw [hsplit, List.append_assoc]

/-- A group that ends before an index begins the part of the run up to there. -/
theorem GroupAt.splitGroup?_take {b : Bracket} (hb : b.opening ≠ b.closing) {start close n : Nat}
    {group : List Token} (h : GroupAt b run start close group) (hle : close + 1 ≤ n) :
    b.splitGroup? ((run.take n).drop start) = some (group, (run.take n).drop (close + 1)) := by
  have hlt := h.lt
  have hclose := h.close_lt
  have hlen : start ≤ (run.take (close + 1)).length := by
    rw [List.length_take]
    omega
  refine (splitGroup?_eq_some_iff hb).mpr ⟨h.isGroup, ?_⟩
  have hsplit : run.take n = run.take (close + 1) ++ (run.take n).drop (close + 1) := by
    rw [← Nat.min_eq_left hle, ← List.take_take, Nat.min_eq_left hle, List.take_append_drop]
  rw [h.eq, ← List.drop_append_of_le_length hlen, ← hsplit]

/-- A type begins behind the leading part, or behind type parameters that end before the name. -/
theorem typeStart_spec {start name : Nat} (hstart : start ≤ name) (hname : name < run.length) :
    ∃ found, typeStart run start name = .ok found ∧
      CallableHeader.withoutTypeParameters? ((run.take name).drop start) =
        found.map ((run.take name).drop ·) ∧ ∀ type ∈ found, type ≤ name := by
  have ht : run[start]? = some run[start] := List.getElem?_eq_getElem (by omega)
  have hhead : ((run.take name).drop start).head? =
      if start < name then some run[start] else none := by
    rw [List.head?_drop, List.getElem?_take, ht]
  rw [typeStart, tokenAt_eq ht, Checked.ok_bind, CallableHeader.withoutTypeParameters?, hhead]
  by_cases hangle : (run[start].isPunct '<' && decide (start < name)) = true
  · rw [if_pos hangle]
    rw [Bool.and_eq_true, decide_eq_true_eq] at hangle
    rw [if_pos hangle.2, Option.any_some, if_pos hangle.1]
    have hfound := closing?_spec (b := angles) (by decide) ht hangle.1
    generalize closing? .angles run start = found at hfound ⊢
    cases hfound with
    | none hsplit =>
        have hnone : angles.splitGroup? ((run.take name).drop start) = none := by
          by_contra hsome
          obtain ⟨⟨group, rest⟩, hsome⟩ := Option.ne_none_iff_exists'.mp hsome
          rw [splitGroup?_drop (by decide) hstart (Nat.le_of_lt hname) hsome] at hsplit
          cases hsplit
        exact ⟨none, rfl, by rw [hnone]; rfl, by simp⟩
    | @some close group hat hsplit =>
        by_cases hclose : close + 1 ≤ name
        · rw [hat.splitGroup?_take (by decide) hclose]
          exact ⟨some (close + 1), congrArg Except.ok (if_pos hclose), rfl, by simpa using hclose⟩
        · have hnone : angles.splitGroup? ((run.take name).drop start) = none := by
            by_contra hsome
            obtain ⟨⟨group', rest⟩, hsome⟩ := Option.ne_none_iff_exists'.mp hsome
            rw [splitGroup?_drop (by decide) hstart (Nat.le_of_lt hname) hsome] at hsplit
            have hlen := congrArg (fun pair => pair.2.length) (Option.some.inj hsplit)
            simp only [List.length_append, List.length_drop] at hlen
            omega
          exact ⟨none, congrArg Except.ok (if_neg hclose), by rw [hnone]; rfl, by simp⟩
  · rw [if_neg hangle, if_neg (by grind)]
    exact ⟨some start, rfl, rfl, by simpa using hstart⟩

/-- The parts of the header stand at the indices. -/
structure IsHeaderAt (run : List Token) (p : HeaderIndices) (h : CallableHeader) : Prop where
  modifiers : h.modifiers = p.modifiers
  type : h.type = (run.take p.name).drop p.type
  type_le : p.type ≤ p.name
  name : run[p.name]? = some h.name
  group : GroupAt parens run p.opening p.close h.group
  chained : h.chained = p.chained

/-- What stands before a chain, or everything if there is none, are the first tokens. -/
theorem chain_spec (g : Grammar) (withBody : Bool) (run : List Token) :
    ∃ colon, initializerStart g run = .ok colon ∧
      let chain := if withBody then colon else none
      let before := if withBody then beforeInitializer? g run.reverse else none
      before.isSome = chain.isSome ∧ chain.getD run.length ≤ run.length ∧
        before.getD run.reverse = (run.take (chain.getD run.length)).reverse := by
  obtain ⟨colon, hinit, hchain, hcolon⟩ := initializerStart_spec g run
  refine ⟨colon, hinit, ?_⟩
  cases withBody with
  | false => simp
  | true =>
      simp only [if_true]
      rw [hchain]
      cases colon with
      | none => simp
      | some n => simpa using hcolon n rfl

/-- The header that a run backwards is, if it is one without a tail. -/
def headerOf? (g : Grammar) (back : List Token) (chained : Bool) : Option CallableHeader := do
  let shape ← CallShape.ofBack? back
  let leading := Leading.ofRun g shape.before.reverse
  let type ← CallableHeader.withoutTypeParameters? (shape.before.reverse.drop leading.size)
  some ⟨leading.modifiers, type, shape.name, shape.group, chained⟩

/-- Where the parts of a callable's header stand, if there is one. -/
inductive HeaderAt (run : List Token) (header : Option CallableHeader) :
    Option HeaderIndices → Prop where
  | none : header = .none → HeaderAt run header .none
  | some {p : HeaderIndices} {h : CallableHeader} : header = .some h → IsHeaderAt run p h →
      HeaderAt run header (.some p)

theorem headerBefore_spec (g : Grammar) {n : Nat} (hn : n ≤ run.length) (chained : Bool) :
    ∃ found, headerBefore g run n chained = .ok found ∧
      HeaderAt run (headerOf? g (run.take n).reverse chained) found := by
  obtain ⟨found, hcall, hfound⟩ := callIndices_spec hn
  rw [headerBefore, hcall, Checked.ok_bind, headerOf?]
  cases hfound with
  | none hshape =>
      rw [hshape]
      exact ⟨none, rfl, .none rfl⟩
  | @some name opening shape hshape hat =>
      have hname : name < run.length := (List.getElem?_eq_some_iff.mp hat.name).1
      have hleading : (Leading.ofRun g (run.take name)).size ≤ name :=
        Nat.le_trans (leading_size_le g _) (List.length_take_le _ _)
      have hpos : 1 ≤ n := by
        have := hat.group.lt
        omega
      obtain ⟨found, htype, hparams, htypeLe⟩ := typeStart_spec hleading hname
      rw [hshape, Option.bind_eq_bind, Option.bind_some, hat.before, List.reverse_reverse]
      simp only [hparams, Option.bind_eq_bind]
      show ∃ found, (tokensBetween run 0 name >>= _) = _ ∧ _
      rw [tokensBetween_zero (Nat.le_of_lt hname), Checked.ok_bind]
      simp only [htype, Checked.ok_bind]
      cases found with
      | none => exact ⟨none, rfl, .none rfl⟩
      | some type =>
          show ∃ found, (difference n 1 >>= _) = _ ∧ _
          rw [difference_eq hpos]
          exact ⟨_, rfl, .some rfl ⟨rfl, rfl, htypeLe type rfl, hat.name, hat.group, rfl⟩⟩

theorem headerIndices_spec (g : Grammar) (withBody : Bool) (run : List Token) :
    ∃ found, headerIndices g withBody run = .ok found ∧
      HeaderAt run (CallableHeader.ofRun? g withBody run) found := by
  obtain ⟨found, hclause, hwithout, hle⟩ := clauseStart_spec g run
  rw [headerIndices, hclause, Checked.ok_bind]
  cases found with
  | none => exact ⟨none, rfl, .none (by rw [CallableHeader.ofRun?, hwithout]; rfl)⟩
  | some stop =>
      have hstop : stop ≤ run.length := hle stop rfl
      have hlen : (run.take stop).length = stop := List.length_take_of_le hstop
      obtain ⟨colon, hinit, hsome, hn, hback⟩ := chain_spec g withBody (run.take stop)
      rw [hlen] at hn hback
      rw [List.take_take, Nat.min_eq_left hn] at hback
      have hofRun : CallableHeader.ofRun? g withBody run =
          headerOf? g (run.take ((if withBody then colon else none).getD stop)).reverse
            (if withBody then colon else none).isSome := by
        rw [CallableHeader.ofRun?, hwithout, ← hsome, ← hback]
        rfl
      rw [hofRun]
      show ∃ found, (tokensBetween run 0 stop >>= _) = _ ∧ _
      rw [tokensBetween_zero hstop, Checked.ok_bind, hinit, Checked.ok_bind]
      exact headerBefore_spec g (Nat.le_trans hn hstop) _

theorem callableDecision_eq (h : InPlace source run) (withBody : Bool) :
    callableDecision g (String.ofList source) tracker withBody run c =
      .ok (c.callableDecision g (String.ofList source) tracker withBody run) := by
  obtain ⟨found, hindices, hfound⟩ := headerIndices_spec g withBody run
  rw [callableDecision, Candidate.callableDecision, hindices, Checked.ok_bind]
  cases hfound with
  | none hheader =>
      rw [hheader]
      rfl
  | @some p header hheader hat =>
      have hname : p.name < run.length := (List.getElem?_eq_some_iff.mp hat.name).1
      have hfirst : run[0]? = some run[0] := List.getElem?_eq_getElem (Nat.zero_lt_of_lt hname)
      have hlt := hat.group.lt
      have hclose := hat.group.close_lt
      rw [hheader]
      show (tokenAt run p.name >>= _) = _
      rw [tokenAt_eq hat.name, Checked.ok_bind, tokensBetween_eq hat.type_le (Nat.le_of_lt hname),
        Checked.ok_bind, ← hat.type, ← hat.modifiers, ← hat.chained]
      have hkind : CallableHeader.kind? g tracker.enclosingType? withBody
          ⟨header.modifiers, header.type, header.name, [], header.chained⟩ =
          header.kind? g tracker.enclosingType? withBody := rfl
      simp only [hkind]
      cases header.kind? g tracker.enclosingType? withBody with
      | none => rfl
      | some kind =>
          have htext := hat.group.text h
          obtain ⟨o, inner, e, hgroup, ho, he, hinner⟩ := hat.group.ends
          have harguments : tokensBetween run (p.opening + 1) p.close =
              .ok header.group.tail.dropLast := by
            rw [tokensBetween_eq hlt (Nat.le_of_lt hclose), hinner, hgroup]
            simp
          have hreason : header.callReason? g =
              DeclTags.callReason? g header.group.tail.dropLast := rfl
          rw [tokenAt_eq ho, Checked.ok_bind, tokenAt_eq he, Checked.ok_bind] at htext
          show (tokensBetween run (p.opening + 1) p.close >>= _) = _
          rw [harguments, Checked.ok_bind, hreason]
          cases DeclTags.callReason? g header.group.tail.dropLast with
          | some reason => rfl
          | none =>
              show (tokenAt run 0 >>= _) = _
              rw [tokenAt_eq hfirst, Checked.ok_bind, tokenAt_eq ho, Checked.ok_bind,
                tokenAt_eq he, Checked.ok_bind, htext, Checked.ok_bind,
                List.head?_eq_getElem?, hfirst]
              rfl

/-! ## Decisions -/

theorem member_eq (g : Grammar) (c : Candidate) : member g c.tokens = .ok (c.member g) := by
  have hcut : ∀ before tail, memberTail? g c.tokens = some (before, tail) →
      tokensBetween c.tokens 0 before.length = .ok before := by
    intro before tail htail
    have hinitial := memberTail?_initial htail
    rw [tokensBetween_zero hinitial.length_le, ← List.prefix_iff_eq_take.mp hinitial]
  rw [member, Candidate.member]
  cases htail : memberTail? g c.tokens with
  | none =>
      show (tokensBetween _ _ _ >>= _) = _
      rw [tokensBetween_zero (Nat.le_refl _), List.take_length]
      rfl
  | some cut =>
      obtain ⟨before, tail⟩ := cut
      cases tail <;>
      · show (tokensBetween _ _ _ >>= _) = _
        rw [hcut before _ htail]
        rfl

theorem atBrace_eq (h : InPlace source c.tokens) :
    atBrace g (String.ofList source) tracker c =
      .ok (c.atBrace g (String.ofList source) tracker) := by
  have hback : c.tokens.reverse = c.back := List.reverse_reverse _
  rw [atBrace, Candidate.atBrace, endsWithConstruction_eq, hback, Checked.ok_bind,
    startsWithControl_eq, Checked.ok_bind, typeDecision?_eq h, Checked.ok_bind,
    callableDecision_eq h]
  split
  · rfl
  split
  · rfl
  split
  · rfl
  simp only
  split
  · rfl
  · cases c.typeDecision? g (String.ofList source) tracker c.tokens <;> rfl

theorem atSemicolon?_eq (h : InPlace source c.tokens) :
    atSemicolon? g (String.ofList source) tracker c =
      .ok (c.atSemicolon? g (String.ofList source) tracker) := by
  have hpart : InPlace source (c.member g).1 := h.mono (Candidate.member_initial g c).sublist
  rw [atSemicolon?, Candidate.atSemicolon?, member_eq, Checked.ok_bind]
  split
  · show (callableDecision g _ tracker (c.member g).2 (c.member g).1 c >>= _) = _
    rw [callableDecision_eq hpart, Checked.ok_bind]
    cases hd : c.callableDecision g (String.ofList source) tracker (c.member g).2 (c.member g).1 <;>
    · simp only [hd]
      rfl
  · rfl

/-- If the tokens of the candidate are in place, an event is handled by position as it is in the
other way. -/
theorem handle_eq {r : Recognizer} (h : InPlace source r.candidate.tokens) (e : Event) :
    handle g (String.ofList source) r e = .ok (r.handle g (String.ofList source) e) := by
  cases e with
  | token t => rfl
  | openBrace tracker =>
      rw [handle, atBrace_eq h]
      rfl
  | closeBrace closed => rfl
  | semicolon t tracker =>
      rw [handle, atSemicolon?_eq h, Recognizer.handle, Recognizer.semicolon]
      split <;> rfl

end Positions

/-! ## Runs -/

/-- What is held behind an event was held before it, or is its token. -/
theorem Recognizer.handle_held_sublist (g : Grammar) (source : String) (r : Recognizer)
    (e : Event) : (r.handle g source e).2.held <+ r.held ++ e.token?.toList := by
  cases e with
  | token t => exact observe_held_sublist
  | openBrace tracker =>
      show (r.openBrace g source tracker).2.held <+ _
      exact (openBrace_held_sublist tracker).trans (List.sublist_append_left _ _)
  | closeBrace closed =>
      exact ((closeBrace_held_sublist closed).trans r.suspendedTokens_sublist).trans
        (List.sublist_append_left _ _)
  | semicolon t tracker => exact semicolon_held_sublist tracker

/-- If what is held and what comes is in place, all events are handled by position. -/
theorem Positions.handleAll_eq {g : Grammar} {source : List Char} {r : Recognizer}
    {events : List Event} (h : InPlace source (r.held ++ events.filterMap Event.token?)) :
    handleAll g (String.ofList source) r events =
      .ok (r.handleAll g (String.ofList source) events) := by
  induction events generalizing r with
  | nil => rfl
  | cons e events ih =>
      have hcandidate : r.candidate.tokens <+ r.held ++ (e :: events).filterMap Event.token? :=
        (List.sublist_append_right _ _).trans (List.sublist_append_left _ _)
      have hrest : (r.handle g (String.ofList source) e).2.held ++ events.filterMap Event.token? <+
          r.held ++ (e :: events).filterMap Event.token? := by
        have hsplit : (e :: events).filterMap Event.token? =
            e.token?.toList ++ events.filterMap Event.token? := by
          cases he : e.token? <;> simp [he]
        rw [hsplit, ← List.append_assoc]
        exact (r.handle_held_sublist g _ e).append (List.Sublist.refl _)
      rw [handleAll, handle_eq (h.mono hcandidate), Checked.ok_bind]
      show (handleAll g _ (r.handle g _ e).2 events >>= _) = _
      rw [ih (h.mono hrest)]
      rfl

/-- Tokens that tile the source are in place. -/
theorem InPlace.of_isChain {source : List Char} {ts : List Token}
    (hplaced : ∀ t ∈ ts, t.IsPlaced source) (hchain : ts.IsChain fun t u => t.stop = u.start) :
    InPlace source ts := by
  refine ⟨fun t ht => (hplaced t ht).isPart, ?_⟩
  induction ts with
  | nil => exact .nil
  | cons t ts ih =>
      have hrest := ih (fun u hu => hplaced u (List.mem_cons_of_mem t hu)) hchain.tail
      refine List.pairwise_cons.mpr ⟨fun u hu => ?_, hrest⟩
      cases ts with
      | nil => cases hu
      | cons v ts =>
          have hnext : t.stop = v.start := (List.isChain_cons_cons.mp hchain).1
          rcases List.mem_cons.mp hu with rfl | hu
          · exact Nat.le_of_eq hnext
          · calc t.stop = v.start := hnext
              _ ≤ v.stop := (hplaced v (by simp)).start_le_stop
              _ ≤ u.start := (List.pairwise_cons.mp hrest).1 u hu

/-- **No access is out of range.** Whatever scopes a recognizer is told of, and in whatever order:
if it is given tokens of the source in their order, reading its candidates by position succeeds, and
decides what is decided without positions. -/
theorem recognizer_never_out_of_range (g : Grammar) (source : List Char) (n : Nat)
    (events : List Event)
    (h : events.filterMap Event.token? <+ ((Lexer.ofSource source).take g n).1) :
    Positions.handleAll g (String.ofList source) {} events =
      .ok (({} : Recognizer).handleAll g (String.ofList source) events) := by
  obtain ⟨hplaced, -, hchain⟩ := (Lexer.Stands.ofSource source).take (g := g) n
  have hstream : InPlace source ((Lexer.ofSource source).take g n).1 := .of_isChain hplaced hchain
  exact Positions.handleAll_eq (hstream.mono h)

/-- All accesses that a method's header needs are in range. -/
theorem recognizer_never_out_of_range_of_method :
    let g : Grammar := .ofProfile .java
    let source := "<K> void f(Map<K> m) throws E \x7b".toList
    let ts := ((Lexer.ofSource source).take g 20).1
    let events := (ts.filter (!·.isPunct '{')).map Event.token ++ [.openBrace {}]
    events.filterMap Event.token? <+ ts ∧
      ∃ ds r, Positions.handleAll g (String.ofList source) {} events = .ok (ds, r) ∧
        ds.getLast? = some (some (.declaration {
          name := "f"
          kind := .method
          modifiers := []
          parameterText := "Map<K> m"
          startLine := 1
          span := ⟨9, 10, 1, 10⟩
          path := [] })) := by
  intro g source ts events
  have h : events.filterMap Event.token? <+ ts := by decide +kernel
  refine ⟨h, _, _, recognizer_never_out_of_range g source 20 events h, ?_⟩
  decide +kernel

/-- Tokens of one text are out of range in another. -/
example :
    let g : Grammar := .ofProfile .java
    let ts := ((Lexer.ofSource "void f(int x)".toList).take g 20).1
    Positions.handleAll g "void f()" {} (ts.map Event.token ++ [.openBrace {}]) =
      .error (.text 7 12) := by
  decide +kernel

end DeclTags
