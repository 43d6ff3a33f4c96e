import DeclTags.Proofs.Beginnings
import DeclTags.Proofs.Headers

set_option autoImplicit false

/-! # Relocated tokens

A relocation puts tokens elsewhere and may give literals another text (`Relocation`). What reads a
run of tokens looks at kinds, at the texts of words and, where characters have to be adjacent, at
whether a token begins where another ends. So each part of a header that is found in a run is found
in the relocated run as well, as the relocated part: `f (run.map ρ.map)` is `f run` relocated. Where
adjacency counts, the relocation has to keep it (`Relocation.KeepsAdjacency`).

The lemmas follow the modules on candidates: groups, calls, what stands before a declaration, what
follows its parameters, and last the two kinds of headers.
-/

open scoped List

namespace DeclTags

/-- A change of the places of tokens, and of the texts of literals. -/
structure Relocation where
  map : Token → Token
  /-- Which lines correspond: those of a token and of what it becomes, and perhaps more. -/
  lines : Nat → Nat → Prop
  kind_map : ∀ t, (map t).kind = t.kind
  terminated_map : ∀ t, (map t).terminated = t.terminated
  text_map : ∀ t, t.kind.isLiteral = false → (map t).text = t.text
  lines_map : ∀ t, lines t.line (map t).line

namespace Relocation

variable {ρ : Relocation} {run : List Token}

/-- What is adjacent among the tokens stays so, and nothing else becomes it. -/
def KeepsAdjacency (ρ : Relocation) (run : List Token) : Prop :=
  run.Pairwise fun a b => (ρ.map a).stop = (ρ.map b).start ↔ a.stop = b.start

theorem KeepsAdjacency.sublist {part : List Token} (h : ρ.KeepsAdjacency run) (hp : part <+ run) :
    ρ.KeepsAdjacency part := List.Pairwise.sublist hp h

/-- Literals keep their texts as well. -/
def KeepsTexts (ρ : Relocation) : Prop := ∀ t, (ρ.map t).text = t.text

/-- Between two of the tokens stands in one source what stands in the other between the two
relocated ones. -/
def KeepsSlices (ρ : Relocation) (source source' : String) (run : List Token) : Prop :=
  ∀ o ∈ run, ∀ c ∈ run,
    Text.slice (ρ.map o).stop (ρ.map c).start source' = Text.slice o.stop c.start source

/-! ## Single tokens -/

@[simp] theorem isPunct_map (ρ : Relocation) (t : Token) (c : Char) :
    (ρ.map t).isPunct c = t.isPunct c := by
  rw [Token.isPunct, ρ.kind_map, Token.isPunct]

@[simp] theorem isIdentifier_map (ρ : Relocation) (t : Token) :
    (ρ.map t).isIdentifier = t.isIdentifier := by
  rw [Token.isIdentifier, ρ.kind_map, Token.isIdentifier]

@[simp] theorem isKeyword_map (ρ : Relocation) (t : Token) :
    (ρ.map t).isKeyword = t.isKeyword := by
  rw [Token.isKeyword, ρ.kind_map, Token.isKeyword]

@[simp] theorem isWord_map (ρ : Relocation) (t : Token) : (ρ.map t).isWord = t.isWord := by
  rw [Token.isWord, isIdentifier_map, isKeyword_map, Token.isWord]

theorem text_map_of_isWord {t : Token} (h : t.isWord = true) : (ρ.map t).text = t.text := by
  refine ρ.text_map t ?_
  rw [Token.isWord, Token.isIdentifier, Token.isKeyword, Bool.or_eq_true, beq_iff_eq,
    beq_iff_eq] at h
  rcases h with h | h <;> rw [h] <;> rfl

/-- A test of keywords by their text. -/
@[simp] theorem isKeyword_and_text_map (ρ : Relocation) (t : Token) (p : String → Bool) :
    (t.isKeyword && p (ρ.map t).text) = (t.isKeyword && p t.text) := by
  cases h : t.isKeyword with
  | false => rfl
  | true => rw [text_map_of_isWord (Token.isWord_of_isKeyword h)]

@[simp] theorem head?_any_isPunct_map (ρ : Relocation) (run : List Token) (c : Char) :
    (run.map ρ.map).head?.any (·.isPunct c) = run.head?.any (·.isPunct c) := by
  cases run with
  | nil => rfl
  | cons t run => exact isPunct_map ρ t c

@[simp] theorem head?_any_keyword_map (ρ : Relocation) (run : List Token) (p : String → Bool) :
    ((run.map ρ.map).head?.any fun t => t.isKeyword && p t.text) =
      run.head?.any fun t => t.isKeyword && p t.text := by
  cases run with
  | nil => rfl
  | cons t run =>
      rw [List.map_cons, List.head?_cons, List.head?_cons, Option.any_some, Option.any_some,
        isKeyword_map, isKeyword_and_text_map]

end Relocation

/-! ## Groups -/

namespace Bracket

variable (ρ : Relocation) (b : Bracket)

@[simp] theorem groupLengthFrom_map (n depth : Nat) (run : List Token) :
    b.groupLengthFrom n depth (run.map ρ.map) = b.groupLengthFrom n depth run := by
  induction run generalizing n depth with
  | nil => rfl
  | cons t run ih =>
      simp only [List.map_cons, groupLengthFrom, Relocation.isPunct_map, ih]

@[simp] theorem groupLength_map (run : List Token) :
    b.groupLength (run.map ρ.map) = b.groupLength run := b.groupLengthFrom_map ρ 0 0 run

@[simp] theorem splitGroup?_map (run : List Token) :
    b.splitGroup? (run.map ρ.map) =
      (b.splitGroup? run).map (Prod.map (List.map ρ.map) (List.map ρ.map)) := by
  unfold splitGroup?
  rw [Relocation.head?_any_isPunct_map, groupLength_map]
  split
  · cases b.groupLength run with
    | none => rfl
    | some n => simp [List.splitAt_eq, List.map_take, List.map_drop]
  · rfl

end Bracket

/-! ## Names with arguments -/

/-- The shape with its tokens relocated. -/
def CallShape.map (ρ : Relocation) (s : CallShape) : CallShape :=
  ⟨s.before.map ρ.map, ρ.map s.name, s.group.map ρ.map⟩

namespace CallShape

variable (ρ : Relocation)

@[simp] theorem withoutTypeArguments?_map (back : List Token) :
    withoutTypeArguments? (back.map ρ.map) =
      (withoutTypeArguments? back).map (List.map ρ.map) := by
  unfold withoutTypeArguments?
  rw [Relocation.head?_any_isPunct_map, Bracket.splitGroup?_map]
  split
  · cases Bracket.angles.flip.splitGroup? back <;> rfl
  · rfl

@[simp] theorem ofBack?_map (back : List Token) :
    ofBack? (back.map ρ.map) = (ofBack? back).map (CallShape.map ρ) := by
  simp only [ofBack?, Option.bind_eq_bind, Bracket.splitGroup?_map]
  cases Bracket.parens.flip.splitGroup? back with
  | none => rfl
  | some pair =>
      obtain ⟨group, rest⟩ := pair
      simp only [Option.map_some, Option.bind_some, Prod.map_apply, withoutTypeArguments?_map]
      cases withoutTypeArguments? rest with
      | none => rfl
      | some rest =>
          cases rest with
          | nil => rfl
          | cons name before =>
              simp only [Option.map_some, Option.bind_some, List.map_cons,
                Relocation.isIdentifier_map]
              split
              · simp [CallShape.map]
              · rfl

end CallShape

@[simp] theorem withoutQualifiers_map (ρ : Relocation) :
    ∀ back : List Token, withoutQualifiers (back.map ρ.map) = (withoutQualifiers back).map ρ.map
  | [] => rfl
  | [_] => rfl
  | point :: name :: back => by
      rw [List.map_cons, List.map_cons, withoutQualifiers, withoutQualifiers,
        Relocation.isPunct_map, Relocation.isIdentifier_map, withoutQualifiers_map ρ back,
        apply_ite (List.map ρ.map), List.map_cons, List.map_cons]

@[simp] theorem endsWithConstruction_map (ρ : Relocation) (g : Grammar) (back : List Token) :
    endsWithConstruction g (back.map ρ.map) = endsWithConstruction g back := by
  rw [endsWithConstruction, CallShape.ofBack?_map, endsWithConstruction]
  cases CallShape.ofBack? back with
  | none => rfl
  | some s =>
      rw [Option.map_some, Option.any_some, Option.any_some, CallShape.map,
        withoutQualifiers_map, Relocation.head?_any_keyword_map]

/-- The reason, told of a token and of what this becomes. -/
inductive CallReason.Retold (ρ : Relocation) : CallReason → CallReason → Prop where
  | literal (t : Token) : Retold ρ (.literal t.text) (.literal (ρ.map t).text)
  | construction (keyword : String) : Retold ρ (.construction keyword) (.construction keyword)

/-- A relocated run reads as a call where the run does. -/
theorem callReasonFrom_map (ρ : Relocation) (g : Grammar) (depth : Nat) (inDefault : Bool)
    (run : List Token) :
    Option.Rel (CallReason.Retold ρ) (callReasonFrom g depth inDefault run)
      (callReasonFrom g depth inDefault (run.map ρ.map)) := by
  induction run generalizing depth inDefault with
  | nil => exact .none
  | cons t run ih =>
      simp only [List.map_cons, callReasonFrom, Relocation.isPunct_map, ρ.kind_map,
        Relocation.isKeyword_map, Relocation.isKeyword_and_text_map]
      split
      · exact ih _ _
      · split
        · exact ih _ _
        · split
          · exact ih _ _
          · split
            · exact ih _ _
            · split
              · exact ih _ _
              · split
                · exact .some (.literal t)
                · split
                  · next h =>
                    have hword := Token.isWord_of_isKeyword ((Bool.and_eq_true _ _).mp h).1
                    rw [Relocation.text_map_of_isWord hword]
                    exact .some (.construction t.text)
                  · exact ih _ _

/-! ## What follows the parameters -/

/-- A relocated run is cut where the run is, if it is tested alike from every token on. -/
theorem cutAfterGroupFrom_map (ρ : Relocation) {starts : List Token → Bool} (before : List Token)
    (depth : Nat) (closed : Bool) (run : List Token)
    (h : ∀ part, part <:+ run → starts (part.map ρ.map) = starts part) :
    cutAfterGroupFrom starts (before.map ρ.map) depth closed (run.map ρ.map) =
      (cutAfterGroupFrom starts before depth closed run).map
        (Prod.map (List.map ρ.map) (List.map ρ.map)) := by
  induction run generalizing before depth closed with
  | nil => rfl
  | cons t run ih =>
      have hhere : starts (ρ.map t :: run.map ρ.map) = starts (t :: run) :=
        h (t :: run) (List.suffix_refl _)
      have htail : ∀ depth closed,
          cutAfterGroupFrom starts (ρ.map t :: before.map ρ.map) depth closed (run.map ρ.map) =
            (cutAfterGroupFrom starts (t :: before) depth closed run).map
              (Prod.map (List.map ρ.map) (List.map ρ.map)) := fun depth closed =>
        ih (t :: before) depth closed fun part hp => h part (hp.trans (List.suffix_cons t run))
      rw [List.map_cons, cutAfterGroupFrom, cutAfterGroupFrom, Relocation.isPunct_map,
        Relocation.isPunct_map, hhere, htail, htail, htail]
      split
      · rfl
      · split
        · rfl
        · split
          · simp
          · rfl

theorem cutAfterGroup?_map (ρ : Relocation) {starts : List Token → Bool} (run : List Token)
    (h : ∀ part, part <:+ run → starts (part.map ρ.map) = starts part) :
    cutAfterGroup? starts (run.map ρ.map) =
      (cutAfterGroup? starts run).map (Prod.map (List.map ρ.map) (List.map ρ.map)) :=
  cutAfterGroupFrom_map ρ [] 0 false run h

@[simp] theorem isClauseToken_map (ρ : Relocation) (t : Token) :
    isClauseToken (ρ.map t) = isClauseToken t := by
  simp only [isClauseToken, ρ.kind_map]

@[simp] theorem withoutTrailingClause?_map (ρ : Relocation) (g : Grammar) (run : List Token) :
    withoutTrailingClause? g (run.map ρ.map) =
      (withoutTrailingClause? g run).map (List.map ρ.map) := by
  have hstarts : ∀ part, part <:+ run →
      startsTrailingClause g (part.map ρ.map) = startsTrailingClause g part :=
    fun part _ => ρ.head?_any_keyword_map part g.isTrailingClause
  have hcut := cutAfterGroup?_map ρ run hstarts
  unfold withoutTrailingClause?
  rw [hcut]
  cases cutAfterGroup? (startsTrailingClause g) run with
  | none => rfl
  | some pair =>
      obtain ⟨before, clause⟩ := pair
      have hall : (clause.tail.map ρ.map).all isClauseToken = clause.tail.all isClauseToken := by
        rw [List.all_map]
        exact congrArg _ (funext fun t => isClauseToken_map ρ t)
      simp only [Option.map_some, Prod.map_apply, ← List.map_tail, hall, List.isEmpty_map]
      split <;> rfl

@[simp] theorem beforeInitializer?_map (ρ : Relocation) (g : Grammar) (back : List Token) :
    beforeInitializer? g (back.map ρ.map) = (beforeInitializer? g back).map (List.map ρ.map) := by
  simp only [beforeInitializer?, Option.bind_eq_bind, Bracket.splitGroup?_map]
  cases Bracket.parens.flip.splitGroup? back with
  | none => rfl
  | some pair =>
      obtain ⟨group, rest⟩ := pair
      rcases rest with _ | ⟨keyword, _ | ⟨colon, before⟩⟩
      · rfl
      · rfl
      · simp only [Option.map_some, Option.bind_some, Prod.map_apply, List.map_cons,
          Relocation.isKeyword_map, Relocation.isKeyword_and_text_map, Relocation.isPunct_map]
        split <;> rfl

/-- Adjacent punctuation is read from a relocated run as from the run, behind a token that is
relocated, too. -/
theorem spellsFrom_map {ρ : Relocation} {p : Token} {run : List Token}
    (h : ρ.KeepsAdjacency (p :: run)) (cs : List Char) :
    spellsFrom (ρ.map p).stop cs (run.map ρ.map) = spellsFrom p.stop cs run := by
  induction run generalizing p cs with
  | nil => cases cs <;> rfl
  | cons t run ih =>
      cases cs with
      | nil => rfl
      | cons c cs =>
          obtain ⟨hp, ht⟩ := List.pairwise_cons.mp h
          have hadjacent : ((ρ.map t).start == (ρ.map p).stop) = (t.start == p.stop) := by
            rw [Bool.eq_iff_iff, beq_iff_eq, beq_iff_eq, eq_comm, hp t List.mem_cons_self, eq_comm]
          rw [List.map_cons, spellsFrom, spellsFrom, Relocation.isPunct_map, hadjacent, ih ht]

theorem spells_map {ρ : Relocation} {run : List Token} (h : ρ.KeepsAdjacency run)
    (text : String) : spells text (run.map ρ.map) = spells text run := by
  cases run with
  | nil => rfl
  | cons t run =>
      unfold spells
      cases text.toList with
      | nil => rfl
      | cons c cs =>
          rw [List.map_cons, spellsFrom, spellsFrom, Relocation.isPunct_map, spellsFrom_map h]
          simp

theorem tailMark?_map {ρ : Relocation} {run : List Token} (h : ρ.KeepsAdjacency run)
    (g : Grammar) : tailMark? g (run.map ρ.map) = tailMark? g run := by
  unfold tailMark?
  simp only [Relocation.head?_any_keyword_map, spells_map h]

theorem memberTail?_map {ρ : Relocation} {run : List Token} (h : ρ.KeepsAdjacency run)
    (g : Grammar) :
    memberTail? g (run.map ρ.map) =
      (memberTail? g run).map (Prod.map (List.map ρ.map) id) := by
  let starts := fun run => (tailMark? g run).isSome
  have hcut : cutAfterGroup? starts (run.map ρ.map) =
      (cutAfterGroup? starts run).map (Prod.map (List.map ρ.map) (List.map ρ.map)) :=
    cutAfterGroup?_map ρ run fun part hp => by
      show (tailMark? g (part.map ρ.map)).isSome = (tailMark? g part).isSome
      rw [tailMark?_map (h.sublist hp.sublist)]
  simp only [starts] at hcut
  simp only [memberTail?, Option.bind_eq_bind, hcut]
  cases hc : cutAfterGroup? (fun run => (tailMark? g run).isSome) run with
  | none => rfl
  | some pair =>
      obtain ⟨before, rest⟩ := pair
      have hrest : rest <:+ run := ⟨before, cutAfterGroup?_append hc⟩
      simp only [Option.map_some, Option.bind_some, Prod.map_apply,
        tailMark?_map (h.sublist hrest.sublist)]
      cases tailMark? g rest with
      | none => rfl
      | some mark =>
          simp only [Option.bind_some, List.length_map]
          split <;> rfl

/-! ## What stands before a declaration -/

namespace LeadingPiece

variable (ρ : Relocation)

@[simp] theorem qualifierLengthFrom_map (n : Nat) :
    ∀ run : List Token, qualifierLengthFrom n (run.map ρ.map) = qualifierLengthFrom n run
  | [] => rfl
  | [_] => rfl
  | point :: name :: run => by
      rw [List.map_cons, List.map_cons, qualifierLengthFrom, qualifierLengthFrom,
        Relocation.isPunct_map, Relocation.isIdentifier_map, qualifierLengthFrom_map (n + 2) run]

@[simp] theorem argumentsLength?_map (run : List Token) :
    argumentsLength? (run.map ρ.map) = argumentsLength? run := by
  rw [argumentsLength?, Relocation.head?_any_isPunct_map, Bracket.groupLength_map,
    argumentsLength?]

theorem annotation?_map (run : List Token) :
    annotation? (run.map ρ.map) = annotation? run := by
  rcases run with _ | ⟨sign, _ | ⟨name, run⟩⟩
  · rfl
  · rfl
  · simp only [List.map_cons, annotation?, Relocation.isPunct_map, Relocation.isIdentifier_map,
      qualifierLengthFrom_map, ← List.map_drop, argumentsLength?_map]

theorem keyword?_map (g : Grammar) (run : List Token) :
    keyword? g (run.map ρ.map) = keyword? g run := by
  cases run with
  | nil => rfl
  | cons t run =>
      simp only [List.map_cons, keyword?, Relocation.isKeyword_map,
        Relocation.isKeyword_and_text_map]
      split
      · next h =>
        have hword := Token.isWord_of_isKeyword ((Bool.and_eq_true _ _).mp h).1
        rw [Relocation.text_map_of_isWord hword]
      · rfl

variable {ρ}

/-- The one piece that depends on adjacency. -/
theorem hyphenated?_map {run : List Token} (h : ρ.KeepsAdjacency run) (g : Grammar) :
    hyphenated? g (run.map ρ.map) = hyphenated? g run := by
  rcases run with _ | ⟨first, _ | ⟨hyphen, _ | ⟨second, run⟩⟩⟩
  · rfl
  · rfl
  · rfl
  · simp only [List.map_cons, hyphenated?, Relocation.isWord_map, Relocation.isPunct_map]
    by_cases hwords : first.isWord = true ∧ second.isWord = true
    · obtain ⟨hfirst, hsecond⟩ := hwords
      obtain ⟨hhead, htail⟩ := List.pairwise_cons.mp h
      have hleft : ((ρ.map first).stop == (ρ.map hyphen).start) =
          (first.stop == hyphen.start) := by
        rw [Bool.eq_iff_iff, beq_iff_eq, beq_iff_eq]
        exact hhead hyphen List.mem_cons_self
      have hright : ((ρ.map hyphen).stop == (ρ.map second).start) =
          (hyphen.stop == second.start) := by
        rw [Bool.eq_iff_iff, beq_iff_eq, beq_iff_eq]
        exact (List.pairwise_cons.mp htail).1 second List.mem_cons_self
      simp only [Relocation.text_map_of_isWord hfirst, Relocation.text_map_of_isWord hsecond,
        hleft, hright]
    · have hfalse : first.isWord = false ∨ second.isWord = false := by
        simpa only [not_and_or, Bool.not_eq_true] using hwords
      rcases hfalse with hf | hf <;> simp [hf]

theorem atHead?_map {run : List Token} (h : ρ.KeepsAdjacency run) (g : Grammar) :
    atHead? g (run.map ρ.map) = atHead? g run := by
  rw [atHead?, annotation?_map, keyword?_map, hyphenated?_map h, atHead?]

end LeadingPiece

@[simp] theorem attributesLengthFrom_map (ρ : Relocation) (n : Nat) (run : List Token) :
    attributesLengthFrom n (run.map ρ.map) = attributesLengthFrom n run := by
  fun_induction attributesLengthFrom n run with
  | case1 n run hhead hnone =>
      rw [attributesLengthFrom_eq, Relocation.head?_any_isPunct_map, if_pos hhead,
        Bracket.groupLength_map, hnone, Option.bind_none]
  | case2 n run hhead k hk ih =>
      rw [attributesLengthFrom_eq, Relocation.head?_any_isPunct_map, if_pos hhead,
        Bracket.groupLength_map, hk, Option.bind_some, ← List.map_drop, ih]
  | case3 n run hhead =>
      rw [attributesLengthFrom_eq, Relocation.head?_any_isPunct_map, if_neg hhead]

namespace Leading

variable {ρ : Relocation}

theorem extend_map {run : List Token} (h : ρ.KeepsAdjacency run) (g : Grammar) (l : Leading) :
    extend g l (run.map ρ.map) = extend g l run := by
  fun_induction extend g l run with
  | case1 l run hnone => rw [extend_eq, LeadingPiece.atHead?_map h, hnone]
  | case2 l run piece hpiece ih =>
      rw [extend_eq, LeadingPiece.atHead?_map h, hpiece, ← ih (h.sublist (List.drop_sublist _ _)),
        List.map_drop]

theorem ofRun_map {run : List Token} (h : ρ.KeepsAdjacency run) (g : Grammar) :
    ofRun g (run.map ρ.map) = ofRun g run := by
  unfold ofRun
  rw [attributesLengthFrom_map]
  cases attributesLengthFrom 0 run with
  | none => rfl
  | some n =>
      simp only [← List.map_drop]
      exact extend_map (h.sublist (List.drop_sublist _ _)) g _

end Leading

/-! ## Control blocks -/

@[simp] theorem withoutLabels_map (ρ : Relocation) :
    ∀ run : List Token, withoutLabels (run.map ρ.map) = (withoutLabels run).map ρ.map
  | [] => rfl
  | [_] => rfl
  | label :: colon :: run => by
      rw [List.map_cons, List.map_cons, withoutLabels, withoutLabels, Relocation.isPunct_map,
        Relocation.isIdentifier_map, withoutLabels_map ρ run, apply_ite (List.map ρ.map),
        List.map_cons, List.map_cons]

@[simp] theorem startsWithControl_map (ρ : Relocation) (g : Grammar) (run : List Token) :
    startsWithControl g (run.map ρ.map) = startsWithControl g run := by
  unfold startsWithControl
  rw [withoutLabels_map]
  cases withoutLabels run with
  | nil => rfl
  | cons t rest =>
      simp only [List.map_cons, Relocation.isKeyword_map, Relocation.head?_any_isPunct_map]
      cases hk : t.isKeyword with
      | false => rfl
      | true => rw [Relocation.text_map_of_isWord (Token.isWord_of_isKeyword hk)]

/-! ## Types -/

/-- Between the first and the last token of a group stands what stands between the relocated
ones. -/
theorem groupText_map {ρ : Relocation} {source source' : String} {group : List Token}
    (h : ρ.KeepsSlices source source' group) :
    groupText source' (group.map ρ.map) = groupText source group := by
  unfold groupText
  rw [List.head?_map, List.getLast?_map]
  cases ho : group.head? with
  | none => rfl
  | some o =>
      cases hc : group.getLast? with
      | none => rfl
      | some c => exact h o (List.mem_of_head? ho) c (List.mem_of_getLast? hc)

theorem Relocation.KeepsSlices.mono {ρ : Relocation} {source source' : String}
    {run part : List Token} (h : ρ.KeepsSlices source source' run) (hp : part ⊆ run) :
    ρ.KeepsSlices source source' part := fun o ho c hc => h o (hp ho) c (hp hc)

@[simp] theorem isTypeToken_map (ρ : Relocation) (g : Grammar) (t : Token) :
    isTypeToken g (ρ.map t) = isTypeToken g t := by
  unfold isTypeToken
  rw [ρ.kind_map]
  cases hk : t.kind <;> simp only
  rw [ρ.text_map t (by rw [hk]; rfl)]

@[simp] theorem endsType_map (ρ : Relocation) (g : Grammar) (t : Token) :
    endsType g (ρ.map t) = endsType g t := by
  unfold endsType
  rw [ρ.kind_map]
  cases hk : t.kind <;> simp only
  rw [ρ.text_map t (by rw [hk]; rfl)]

@[simp] theorem isTypeRun_map (ρ : Relocation) (g : Grammar) (run : List Token) :
    isTypeRun g (run.map ρ.map) = isTypeRun g run := by
  have hall : (run.map ρ.map).all (isTypeToken g) = run.all (isTypeToken g) := by
    rw [List.all_map]
    exact congrArg _ (funext fun t => isTypeToken_map ρ g t)
  have hlast : (run.map ρ.map).getLast?.any (endsType g) = run.getLast?.any (endsType g) := by
    rw [List.getLast?_map]
    cases run.getLast? with
    | none => rfl
    | some t => exact endsType_map ρ g t
  rw [isTypeRun, hall, hlast, isTypeRun]

namespace TypeHeader

variable {ρ : Relocation} {g : Grammar} {run : List Token}

/-- The header with its tokens relocated. -/
def map (ρ : Relocation) (h : TypeHeader) : TypeHeader :=
  ⟨h.modifiers, ρ.map h.name, h.rest.map ρ.map⟩

theorem ofRun?_map (h : ρ.KeepsAdjacency run) :
    ofRun? g (run.map ρ.map) = (ofRun? g run).map (map ρ) := by
  have hrest : ∀ rest : List Token,
      (if (rest.map ρ.map).head?.any (·.isPunct '@') then (rest.map ρ.map).tail
        else rest.map ρ.map) =
      (if rest.head?.any (·.isPunct '@') then rest.tail else rest).map ρ.map := by
    intro rest
    rw [Relocation.head?_any_isPunct_map, ← List.map_tail, apply_ite (List.map ρ.map)]
  simp only [ofRun?, Leading.ofRun_map h, ← List.map_drop, hrest]
  generalize (if (run.drop (Leading.ofRun g run).size).head?.any (·.isPunct '@') then
    (run.drop (Leading.ofRun g run).size).tail else run.drop (Leading.ofRun g run).size) = rest
  rcases rest with _ | ⟨keyword, _ | ⟨name, rest⟩⟩
  · rfl
  · rfl
  · simp only [List.map_cons, Relocation.isKeyword_map, Relocation.isKeyword_and_text_map,
      Relocation.isIdentifier_map]
    split <;> rfl

theorem name_isIdentifier {header : TypeHeader} (h : ofRun? g run = some header) :
    header.name.isIdentifier = true := by
  simp only [ofRun?] at h
  split at h
  · split at h
    · next hname =>
      cases h
      exact ((Bool.and_eq_true _ _).mp hname).2
    · cases h
  · cases h

@[simp] theorem afterTypeParameters_map (ρ : Relocation) (rest : List Token) :
    afterTypeParameters (rest.map ρ.map) = (afterTypeParameters rest).map ρ.map := by
  unfold afterTypeParameters
  rw [Relocation.head?_any_isPunct_map, Bracket.splitGroup?_map]
  split
  · cases Bracket.angles.splitGroup? rest <;> rfl
  · rfl

theorem componentText_map {source source' : String} {header : TypeHeader}
    (h : ρ.KeepsSlices source source' header.rest) :
    (header.map ρ).componentText source' = header.componentText source := by
  unfold componentText
  rw [map, afterTypeParameters_map, Bracket.splitGroup?_map]
  cases hg : Bracket.parens.splitGroup? (afterTypeParameters header.rest) with
  | none => rfl
  | some pair =>
      have hgroup : pair.1 ⊆ header.rest := fun t ht =>
        afterTypeParameters_subset header.rest
          (Bracket.splitGroup?_append hg ▸ List.mem_append_left _ ht)
      exact groupText_map (h.mono hgroup)

end TypeHeader

/-! ## Methods and constructors -/

namespace CallableHeader

variable {ρ : Relocation} {g : Grammar} {withBody : Bool} {run : List Token}

/-- The header with its tokens relocated. -/
def map (ρ : Relocation) (h : CallableHeader) : CallableHeader :=
  ⟨h.modifiers, h.type.map ρ.map, ρ.map h.name, h.group.map ρ.map, h.chained⟩

@[simp] theorem withoutTypeParameters?_map (ρ : Relocation) (run : List Token) :
    withoutTypeParameters? (run.map ρ.map) =
      (withoutTypeParameters? run).map (List.map ρ.map) := by
  unfold withoutTypeParameters?
  rw [Relocation.head?_any_isPunct_map, Bracket.splitGroup?_map]
  split
  · cases Bracket.angles.splitGroup? run <;> rfl
  · rfl

theorem ofRun?_map (h : ρ.KeepsAdjacency run) :
    ofRun? g withBody (run.map ρ.map) = (ofRun? g withBody run).map (map ρ) := by
  simp only [ofRun?, Option.bind_eq_bind, withoutTrailingClause?_map]
  cases hrest : withoutTrailingClause? g run with
  | none => rfl
  | some rest =>
      simp only [Option.map_some, Option.bind_some, ← List.map_reverse, beforeInitializer?_map]
      -- what a chain is cut from, and how far
      obtain ⟨main, chain, hmain, -, hgetD, -⟩ := chain_sound g withBody rest
      have hchain : (if withBody then
            (beforeInitializer? g rest.reverse).map (List.map ρ.map) else none) =
          (if withBody then beforeInitializer? g rest.reverse else none).map
            (List.map ρ.map) := by
        cases withBody <;> rfl
      rw [hchain, Option.isSome_map]
      have hmap : (((if withBody then beforeInitializer? g rest.reverse else none).map
          (List.map ρ.map)).getD (rest.reverse.map ρ.map)) = main.reverse.map ρ.map := by
        rw [← hgetD]
        cases (if withBody then beforeInitializer? g rest.reverse else none) <;> rfl
      rw [hmap, hgetD, CallShape.ofBack?_map]
      cases hshape : CallShape.ofBack? main.reverse with
      | none => rfl
      | some shape =>
          -- the tokens before the name stand at the beginning of the run
          obtain ⟨typeArguments, -, -, -, hbefore⟩ := CallShape.ofBack?_eq_some_iff.mp hshape
          have hinitial : shape.before.reverse <+: run := by
            refine List.IsPrefix.trans ?_ (withoutTrailingClause?_initial hrest)
            rw [hmain, hbefore, List.append_assoc, List.append_assoc]
            exact List.prefix_append _ _
          have hleading := Leading.ofRun_map (h.sublist hinitial.sublist) g
          simp only [Option.map_some, Option.bind_some, CallShape.map, ← List.map_reverse,
            hleading, ← List.map_drop, withoutTypeParameters?_map]
          cases withoutTypeParameters? (shape.before.reverse.drop
            (Leading.ofRun g shape.before.reverse).size) <;> rfl

theorem name_isIdentifier {header : CallableHeader} (h : ofRun? g withBody run = some header) :
    header.name.isIdentifier = true := by
  obtain ⟨shape, chain, clause, -, -, rfl⟩ := ofRun?_sound h
  exact shape.name_identifier

theorem kind?_map {header : CallableHeader} (h : header.name.isIdentifier = true)
    (owner : Option String) :
    (header.map ρ).kind? g owner withBody = header.kind? g owner withBody := by
  have hname := ρ.text_map_of_isWord (Token.isWord_of_isIdentifier h)
  simp only [kind?, map, List.isEmpty_map, isTypeRun_map, hname]

theorem callReason?_map (ρ : Relocation) (g : Grammar) (header : CallableHeader) :
    Option.Rel (CallReason.Retold ρ) (header.callReason? g) ((header.map ρ).callReason? g) := by
  have hgroup : (header.map ρ).group.tail.dropLast = header.group.tail.dropLast.map ρ.map := by
    rw [map, ← List.map_tail, ← List.map_dropLast]
  rw [callReason?, callReason?, hgroup]
  exact callReasonFrom_map ρ g 0 false _

end CallableHeader

end DeclTags
