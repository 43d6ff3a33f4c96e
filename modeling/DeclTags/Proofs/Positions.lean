import DeclTags.Proofs.Streams
import DeclTags.Recognizer
import Mathlib.Data.List.Infix

set_option autoImplicit false

/-! # Reading candidates by position

A second form of the recognizer, which reads its candidates by position: it looks for brackets from
an index on, cuts runs between two indices, takes one index from another, and cuts the text between
the offsets of two tokens. Each of these accesses is checked, and one that is out of range is a
fault (`RangeFault`). What looks only at the tokens that there are, as the leading part of a
declaration does, is that of the other form.

That no access is out of range is shown in `DeclTags.Proofs.InRange`.
-/

namespace DeclTags

/-- The offsets at which a character begins, and that of the end, are those of the beginnings. -/
instance Text.decidableIsBoundary (source : List Char) (offset : Nat) :
    Decidable (Text.IsBoundary source offset) :=
  decidable_of_iff (∃ before ∈ source.inits, offset = Text.byteSize before) <| by
    constructor
    · rintro ⟨before, hbefore, ho⟩
      obtain ⟨after, hs⟩ := (List.mem_inits _ _).mp hbefore
      exact ⟨before, after, hs.symm, ho⟩
    · rintro ⟨before, after, hs, ho⟩
      exact ⟨before, (List.mem_inits _ _).mpr ⟨after, hs.symm⟩, ho⟩

/-! ## Checked accesses -/

/-- An access that is out of range. -/
inductive RangeFault where
  /-- There is no token at the index. -/
  | token (index size : Nat)
  /-- There is no part of the run between the indices. -/
  | tokens (first last size : Nat)
  /-- There is no part of the text between the offsets. -/
  | text (first last : Nat)
  /-- The second number is greater than the first. -/
  | difference (a b : Nat)
  deriving DecidableEq, Repr

/-- A value, or the first access that is out of range. -/
abbrev Checked (α : Type) := Except RangeFault α

namespace Checked

variable {α β : Type}

@[simp] theorem ok_bind (a : α) (f : α → Checked β) : (Except.ok a >>= f) = f a := rfl

@[simp] theorem pure_eq_ok (a : α) : (pure a : Checked α) = .ok a := rfl

end Checked

namespace Positions

/-- The token at an index. -/
def tokenAt (run : List Token) (i : Nat) : Checked Token :=
  match run[i]? with
  | some t => .ok t
  | none => .error (.token i run.length)

/-- The tokens from an index on and before another one. -/
def tokensBetween (run : List Token) (first last : Nat) : Checked (List Token) :=
  if first ≤ last ∧ last ≤ run.length then .ok ((run.take last).drop first)
  else .error (.tokens first last run.length)

/-- The text between two offsets, at each of which a character begins or the text ends. -/
def textBetween (source : String) (first last : Nat) : Checked String :=
  if first ≤ last ∧ Text.IsBoundary source.toList first ∧ Text.IsBoundary source.toList last then
    .ok (Text.slice first last source)
  else .error (.text first last)

/-- The difference of two numbers. -/
def difference (a b : Nat) : Checked Nat :=
  if b ≤ a then .ok (a - b) else .error (.difference a b)

section Accesses

variable {run : List Token} {i first last a b : Nat} {t : Token}

theorem tokenAt_eq (h : run[i]? = some t) : tokenAt run i = .ok t := by rw [tokenAt, h]

theorem tokensBetween_eq (h : first ≤ last) (h' : last ≤ run.length) :
    tokensBetween run first last = .ok ((run.take last).drop first) := if_pos ⟨h, h'⟩

@[simp] theorem tokensBetween_zero (h : last ≤ run.length) :
    tokensBetween run 0 last = .ok (run.take last) := tokensBetween_eq (Nat.zero_le _) h

theorem textBetween_eq {source : List Char} (h : first ≤ last)
    (hfirst : Text.IsBoundary source first) (hlast : Text.IsBoundary source last) :
    textBetween (String.ofList source) first last =
      .ok (Text.slice first last (String.ofList source)) := by
  rw [textBetween, String.toList_ofList, if_pos ⟨h, hfirst, hlast⟩]

theorem difference_eq (h : b ≤ a) : difference a b = .ok (a - b) := if_pos h

end Accesses

/-! ## Brackets -/

/-- From right to left over the first tokens of the run, `depth` brackets being closed behind them
and not yet opened: the index of the bracket that opens the last of them. At each opening bracket
`less` takes one from the number, or ends the search. -/
def openingFrom (b : Bracket) (less : Nat → Checked (Option Nat)) (run : List Token)
    (depth : Nat) : Nat → Checked (Option Nat)
  | 0 => return none
  | i + 1 => do
    let t ← tokenAt run i
    if t.isPunct b.closing then openingFrom b less run (depth + 1) i
    else if t.isPunct b.opening then
      match ← less depth with
      | none => return none
      | some 0 => return some i
      | some depth => openingFrom b less run depth i
    else openingFrom b less run depth i

/-- The index of the `(` that the `)` at an index closes. -/
def openingParen (run : List Token) (close : Nat) : Checked (Option Nat) :=
  openingFrom .parens (fun depth => some <$> difference depth 1) run 0 (close + 1)

/-- The index of the `<` that the `>` at an index closes. A `<` that nothing closes ends the
search. -/
def openingAngle (run : List Token) (close : Nat) : Checked (Option Nat) :=
  openingFrom .angles (fun depth => return if depth = 0 then none else some (depth - 1)) run 0
    (close + 1)

/-- The index of the bracket that closes the one at an index. -/
def closing? (b : Bracket) (run : List Token) (opening : Nat) : Option Nat :=
  (b.groupLength (run.drop opening)).map fun n => opening + n - 1

/-! ## Names with arguments -/

/-- The index of the token before the type arguments that end before an index; if there are none,
of the token before the index. -/
def beforeArguments (run : List Token) (opening : Nat) : Checked (Option Nat) := do
  let last ← difference opening 1
  if (← tokenAt run last).isPunct '>' then
    match ← openingAngle run last with
    | none => return none
    | some angle => if angle = 0 then return none else some <$> difference angle 1
  else return some last

/-- The index of the name before a group that begins at an index. -/
def nameIndex (run : List Token) (opening : Nat) : Checked (Option Nat) := do
  if opening = 0 then return none
  else
    match ← beforeArguments run opening with
    | none => return none
    | some i => return if (← tokenAt run i).isIdentifier then some i else none

/-- The indices of the name and of the `(`, if the first `n` tokens of the run end with a name and a
group of parentheses, perhaps with type arguments between them. -/
def callIndices (run : List Token) (n : Nat) : Checked (Option (Nat × Nat)) := do
  if n = 0 then return none
  else
    let close ← difference n 1
    if !(← tokenAt run close).isPunct ')' then return none
    else
      match ← openingParen run close with
      | none => return none
      | some opening => return (← nameIndex run opening).map (·, opening)

/-- The index from which on there are only qualifiers before an index. -/
def qualifiersStart (run : List Token) : Nat → Checked Nat
  | i + 2 => do
    let point ← tokenAt run (← difference (i + 2) 1)
    if point.isPunct '.' then
      let name ← tokenAt run (← difference (i + 2) 2)
      if name.isIdentifier then qualifiersStart run i else return i + 2
    else return i + 2
  | i => return i

/-- Whether the run ends with the construction of an object. -/
def endsWithConstruction (g : Grammar) (run : List Token) : Checked Bool := do
  match ← callIndices run run.length with
  | none => return false
  | some (name, _) =>
    let start ← qualifiersStart run name
    if start = 0 then return false
    else
      let keyword ← tokenAt run (← difference start 1)
      return keyword.isKeyword && g.isAnonymousClass keyword.text

/-! ## Beginnings -/

/-- The index behind the labels from an index on. -/
def labelsEnd (run : List Token) (i : Nat) : Checked Nat :=
  if _h : i + 1 < run.length then do
    if (← tokenAt run i).isIdentifier then
      if (← tokenAt run (i + 1)).isPunct ':' then labelsEnd run (i + 2) else return i
    else return i
  else return i
termination_by run.length - i

/-- Whether the run begins with a control keyword, labels aside. -/
def startsWithControl (g : Grammar) (run : List Token) : Checked Bool := do
  let i ← labelsEnd run 0
  match run[i]? with
  | none => return false
  | some t =>
    return t.isKeyword && g.isControl t.text
      && (!g.isModifier t.text || run[i + 1]?.any (·.isPunct '('))

/-! ## Tails -/

/-- The number of tokens before the trailing clause; `none` if it is malformed. -/
def clauseStart (g : Grammar) (run : List Token) : Checked (Option Nat) := do
  match cutAfterGroup? (startsTrailingClause g) run with
  | none => return some run.length
  | some (before, _) =>
    let body ← tokensBetween run (before.length + 1) run.length
    return if !body.isEmpty && body.all isClauseToken then some before.length else none

/-- The index of the colon of a chain to another constructor whose arguments begin at an index. -/
def colonIndex (g : Grammar) (run : List Token) (opening : Nat) : Checked (Option Nat) := do
  if opening < 2 then return none
  else
    match run[opening - 1]? with
    | none => return none
    | some keyword =>
      if keyword.isKeyword && g.isConstructorInitializer keyword.text then
        return if (← tokenAt run (opening - 2)).isPunct ':' then some (opening - 2) else none
      else return none

/-- The index of the colon of a chain to another constructor with which the run ends. -/
def initializerStart (g : Grammar) (run : List Token) : Checked (Option Nat) := do
  if run.length = 0 then return none
  else
    let close ← difference run.length 1
    if !(← tokenAt run close).isPunct ')' then return none
    else
      match ← openingParen run close with
      | none => return none
      | some opening => colonIndex g run opening

/-- The tokens of a candidate that a semicolon judges, and whether they have a body. -/
def member (g : Grammar) (run : List Token) : Checked (List Token × Bool) := do
  let (last, withBody) :=
    match memberTail? g run with
    | some (before, .expressionBody) => (before.length, true)
    | some (before, .defaultValue) => (before.length, false)
    | none => (run.length, false)
  return (← tokensBetween run 0 last, withBody)

/-! ## Headers -/

/-- The text of a type's components, `i` being the index behind its name. -/
def componentText (source : String) (run : List Token) (i : Nat) : Checked String := do
  let after :=
    if run[i]?.any (·.isPunct '<') then ((closing? .angles run i).map (· + 1)).getD run.length
    else i
  match run[after]?.filter (·.isPunct '(') with
  | none => return ""
  | some opening =>
    match closing? .parens run after with
    | none => return ""
    | some close => textBetween source opening.stop (← tokenAt run close).start

/-- The candidate, its tokens being `run`, as a type's header decides it. -/
def typeDecision? (g : Grammar) (source : String) (tracker : ScopeTracker) (run : List Token)
    (c : Candidate) : Checked (Option Decision) := do
  let leading := Leading.ofRun g run
  let i := if run[leading.size]?.any (·.isPunct '@') then leading.size + 1 else leading.size
  match run[i]?, run[i + 1]? with
  | some keyword, some name =>
    if keyword.isKeyword && g.isTypeDeclaration keyword.text && name.isIdentifier then
      if g.emitTypeSymbols then
        let text ← componentText source run (i + 2)
        let first ← tokenAt run 0
        return some <| .type name.text <| some {
          name := name.text
          kind := .type
          modifiers := leading.modifiers
          parameterText := text
          startLine := first.line
          span := .ofToken name
          path := tracker.path
          docComment := c.doc }
      else return some (.type name.text none)
    else return none
  | _, _ => return none

/-- The index of a method's type, `start` being that behind the leading part and `name` that of the
name; `none` if type parameters are not closed before the name. -/
def typeStart (run : List Token) (start name : Nat) : Checked (Option Nat) := do
  if (← tokenAt run start).isPunct '<' && start < name then
    match closing? .angles run start with
    | none => return none
    | some close => return if close + 1 ≤ name then some (close + 1) else none
  else return some start

/-- Where the parts of a callable's header stand. -/
structure HeaderIndices where
  modifiers : List String
  /-- The index of the type; it ends at the name. -/
  type : Nat
  name : Nat
  /-- The indices of the parentheses. -/
  opening : Nat
  close : Nat
  chained : Bool
  deriving DecidableEq, Repr

/-- The header that the first `n` tokens of the run are, if they are one without a tail. -/
def headerBefore (g : Grammar) (run : List Token) (n : Nat) (chained : Bool) :
    Checked (Option HeaderIndices) := do
  match ← callIndices run n with
  | none => return none
  | some (name, opening) =>
    let leading := Leading.ofRun g (← tokensBetween run 0 name)
    match ← typeStart run leading.size name with
    | none => return none
    | some type =>
      return some ⟨leading.modifiers, type, name, opening, ← difference n 1, chained⟩

/-- The header that the run is, if it is that of a callable. -/
def headerIndices (g : Grammar) (withBody : Bool) (run : List Token) :
    Checked (Option HeaderIndices) := do
  match ← clauseStart g run with
  | none => return none
  | some stop =>
    let colon ← initializerStart g (← tokensBetween run 0 stop)
    let chain := if withBody then colon else none
    headerBefore g run (chain.getD stop) chain.isSome

/-- The candidate cut down to `run` as a callable's header decides it. -/
def callableDecision (g : Grammar) (source : String) (tracker : ScopeTracker) (withBody : Bool)
    (run : List Token) (c : Candidate) : Checked Decision := do
  match ← headerIndices g withBody run with
  | none => return .unknown
  | some p =>
    let name ← tokenAt run p.name
    let h : CallableHeader := {
      modifiers := p.modifiers
      type := ← tokensBetween run p.type p.name
      name := name
      group := []
      chained := p.chained }
    match h.kind? g tracker.enclosingType? withBody with
    | none => return .unknown
    | some kind =>
      match callReason? g (← tokensBetween run (p.opening + 1) p.close) with
      | some reason => return .ambiguous name.text name.line reason
      | none =>
        let first ← tokenAt run 0
        let text ← textBetween source (← tokenAt run p.opening).stop
          (← tokenAt run p.close).start
        return .declaration {
          name := name.text
          kind := kind
          modifiers := p.modifiers
          parameterText := text
          startLine := first.line
          span := .ofToken name
          path := tracker.path
          docComment := c.doc }

/-! ## Decisions -/

/-- What a brace after the candidate opens. -/
def atBrace (g : Grammar) (source : String) (tracker : ScopeTracker) (c : Candidate) :
    Checked Decision := do
  let run := c.tokens
  if c.overflowed || c.isEmpty then return .unknown
  else if ← endsWithConstruction g run then return .anonymousClass
  else if 0 < c.parenDepth then return .unknown
  else if ← startsWithControl g run then return .controlBlock
  else
    match ← typeDecision? g source tracker run c with
    | some d => return d
    | none => callableDecision g source tracker true run c

/-- The member that a semicolon after the candidate ends, if it ends one. -/
def atSemicolon? (g : Grammar) (source : String) (tracker : ScopeTracker) (c : Candidate) :
    Checked (Option Decision) := do
  if c.mayBeMember g tracker then
    let (run, withBody) ← member g c.tokens
    match ← callableDecision g source tracker withBody run c with
    | .declaration symbol => return some (.declaration symbol)
    | .ambiguous name line reason => return some (.ambiguous name line reason)
    | _ => return none
  else return none

end Positions

/-! ## Events -/

/-- What a recognizer takes note of, with the scopes that are open there. -/
inductive Event where
  | token (t : Token)
  | openBrace (tracker : ScopeTracker)
  /-- A closing brace, and the depth of the scope that it closes. -/
  | closeBrace (closed : Option Nat)
  | semicolon (t : Token) (tracker : ScopeTracker)
  deriving DecidableEq, Repr

/-- The token that may become one of the candidate. -/
def Event.token? : Event → Option Token
  | .token t | .semicolon t _ => some t
  | .openBrace _ | .closeBrace _ => none

/-- What is decided at an event, and the recognizer behind it. -/
def Recognizer.handle (g : Grammar) (source : String) (r : Recognizer) :
    Event → Option Decision × Recognizer
  | .token t => (none, r.observe g t)
  | .openBrace tracker => (r.openBrace g source tracker).map some id
  | .closeBrace closed => (none, r.closeBrace closed)
  | .semicolon t tracker => r.semicolon g source tracker t

/-- What is decided at each event, and the recognizer behind all of them. -/
def Recognizer.handleAll (g : Grammar) (source : String) (r : Recognizer) :
    List Event → List (Option Decision) × Recognizer
  | [] => ([], r)
  | e :: events =>
    let (d, r) := r.handle g source e
    let (ds, r) := handleAll g source r events
    (d :: ds, r)

namespace Positions

/-- What is decided at an event, read by position, and the recognizer behind it. -/
def handle (g : Grammar) (source : String) (r : Recognizer) :
    Event → Checked (Option Decision × Recognizer)
  | .token t => return (none, r.observe g t)
  | .openBrace tracker => do
    let d ← atBrace g source tracker r.candidate
    return (some d, (r.openBrace g source tracker).2)
  | .closeBrace closed => return (none, r.closeBrace closed)
  | .semicolon t tracker => do
    if r.inParenGroup then return (none, r.observe g t)
    else return (← atSemicolon? g source tracker r.candidate, .boundary r.suspended)

/-- What is decided at each event, read by position, and the recognizer behind all of them. -/
def handleAll (g : Grammar) (source : String) (r : Recognizer) :
    List Event → Checked (List (Option Decision) × Recognizer)
  | [] => return ([], r)
  | e :: events => do
    let (d, r) ← handle g source r e
    let (ds, r) ← handleAll g source r events
    return (d :: ds, r)

end Positions

end DeclTags
