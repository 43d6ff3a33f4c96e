import DeclTags.Proofs.Feed

set_option autoImplicit false

/-! # Bracket words

The braces of a list of tokens, read as a bracket word. `Balanced` says that they match, other
tokens not regarded. A `{` and a `}` are *partners* if the tokens between them are balanced; nothing
here counts or keeps a stack. What has no partner is collected, in order and with its position, by
`unclosed` and `stray`.

The main statements are the laws of one more token at the end (`unclosed_concat_closing`,
`closings_concat_closing` and their like): a `}` has a partner exactly when some `{` before it has
none yet, and then its partner is the last of these. Their proofs go over the stack of open
positions, `openStack`.
-/

namespace DeclTags

/-- The braces of the tokens match; other tokens do not count. -/
inductive Balanced : List Token → Prop where
  | nil : Balanced []
  | plain {t : Token} {ts : List Token} : t.isBrace = false → Balanced ts → Balanced (t :: ts)
  | block {o c : Token} {inner rest : List Token} : o.isPunct '{' = true → c.isPunct '}' = true →
      Balanced inner → Balanced rest → Balanced (o :: inner ++ c :: rest)

namespace Balanced

theorem append {ts us : List Token} (h : Balanced ts) (hu : Balanced us) :
    Balanced (ts ++ us) := by
  induction h with
  | nil => exact hu
  | plain ht _ ih => exact .plain ht ih
  | block ho hc hi _ _ ih =>
      have := Balanced.block ho hc hi ih
      simpa only [List.cons_append, List.append_assoc] using this

theorem concat_plain {ts : List Token} {t : Token} (h : Balanced ts) (ht : t.isBrace = false) :
    Balanced (ts ++ [t]) := h.append (.plain ht .nil)

/-- A balanced list in braces is balanced. -/
theorem enclose {o c : Token} {inner : List Token} (ho : o.isPunct '{' = true)
    (hc : c.isPunct '}' = true) (h : Balanced inner) : Balanced (o :: inner ++ [c]) :=
  .block ho hc h .nil

end Balanced

/-- The `{` at position `i` and the `}` at position `j` are partners: what is between them is
balanced. -/
def Partners (ts : List Token) (i j : Nat) : Prop :=
  ∃ before o inner c after, ts = before ++ o :: inner ++ c :: after ∧
    o.isPunct '{' = true ∧ c.isPunct '}' = true ∧ Balanced inner ∧
    i = before.length ∧ j = (before ++ o :: inner).length

theorem Partners.lt_length {ts : List Token} {i j : Nat} (h : Partners ts i j) :
    i < j ∧ j < ts.length := by
  obtain ⟨before, o, inner, c, after, rfl, -, -, -, rfl, rfl⟩ := h
  simp only [List.length_append, List.length_cons]
  omega

/-- Whether two positions are partners is settled by the tokens up to the second one. -/
theorem partners_append {ts : List Token} (us : List Token) {i j : Nat} (hj : j < ts.length) :
    Partners (ts ++ us) i j ↔ Partners ts i j := by
  constructor
  · -- the closing brace stands in `ts`, so all that is before it does
    rintro ⟨before, o, inner, c, after, h, ho, hc, hb, rfl, rfl⟩
    have hle : (before ++ o :: inner ++ [c]).length ≤ ts.length := by
      rw [List.length_append, List.length_singleton]
      exact hj
    have hp : before ++ o :: inner ++ [c] <+: ts := by
      refine List.prefix_of_prefix_length_le ⟨after, ?_⟩ (List.prefix_append ts us) hle
      simpa using h.symm
    obtain ⟨after', rfl⟩ := hp
    exact ⟨before, o, inner, c, after', by simp, ho, hc, hb, rfl, rfl⟩
  · rintro ⟨before, o, inner, c, after, rfl, ho, hc, hb, rfl, rfl⟩
    exact ⟨before, o, inner, c, after ++ us, by simp, ho, hc, hb, rfl, rfl⟩

/-! ## The stack of open positions -/

/-- The positions of the open braces behind the tokens, innermost first; the first token stands at
position `n`, and `stack` is open there. -/
def openFrom (n : Nat) (stack : List Nat) : List Token → List Nat
  | [] => stack
  | t :: ts =>
    if t.isPunct '{' then openFrom (n + 1) (n :: stack) ts
    else if t.isPunct '}' then openFrom (n + 1) stack.tail ts
    else openFrom (n + 1) stack ts

/-- The positions of the open braces behind the tokens, innermost first. -/
def openStack (ts : List Token) : List Nat := openFrom 0 [] ts

theorem openFrom_append (n : Nat) (stack : List Nat) (ts us : List Token) :
    openFrom n stack (ts ++ us) = openFrom (n + ts.length) (openFrom n stack ts) us := by
  induction ts generalizing n stack with
  | nil => rfl
  | cons t ts ih =>
      have hn : n + 1 + ts.length = n + (ts.length + 1) := by omega
      simp only [List.cons_append, openFrom, List.length_cons]
      split
      · rw [ih, hn]
      · split
        · rw [ih, hn]
        · rw [ih, hn]

theorem openFrom_opening (n : Nat) (stack : List Nat) (ts : List Token) {o : Token}
    (ho : o.isPunct '{' = true) :
    openFrom n stack (o :: ts) = openFrom (n + 1) (n :: stack) ts := by
  simp [openFrom, ho]

theorem openFrom_closing (n : Nat) (stack : List Nat) (ts : List Token) {c : Token}
    (hc : c.isPunct '}' = true) :
    openFrom n stack (c :: ts) = openFrom (n + 1) stack.tail ts := by
  simp [openFrom, hc, Token.not_isPunct_of_ne hc]

theorem openFrom_plain (n : Nat) (stack : List Nat) (ts : List Token) {t : Token}
    (ht : t.isBrace = false) : openFrom n stack (t :: ts) = openFrom (n + 1) stack ts := by
  obtain ⟨ho, hc⟩ := Token.not_isPunct_of_not_isBrace ht
  simp [openFrom, ho, hc]

/-- Balanced tokens leave the stack as it was. -/
theorem openFrom_balanced {ts : List Token} (h : Balanced ts) (n : Nat) (stack : List Nat) :
    openFrom n stack ts = stack := by
  induction h generalizing n stack with
  | nil => rfl
  | plain ht _ ih => rw [openFrom_plain _ _ _ ht, ih]
  | block ho hc _ _ ihi ihr =>
      rw [List.cons_append, openFrom_opening _ _ _ ho, openFrom_append, ihi,
        openFrom_closing _ _ _ hc, List.tail_cons, ihr]

theorem openStack_concat_opening (ts : List Token) {o : Token} (ho : o.isPunct '{' = true) :
    openStack (ts ++ [o]) = ts.length :: openStack ts := by
  rw [openStack, openFrom_append, openFrom_opening _ _ _ ho, Nat.zero_add]
  rfl

theorem openStack_concat_closing (ts : List Token) {c : Token} (hc : c.isPunct '}' = true) :
    openStack (ts ++ [c]) = (openStack ts).tail := by
  rw [openStack, openFrom_append, openFrom_closing _ _ _ hc]
  rfl

theorem openStack_concat_plain (ts : List Token) {t : Token} (ht : t.isBrace = false) :
    openStack (ts ++ [t]) = openStack ts := by
  rw [openStack, openFrom_append, openFrom_plain _ _ _ ht]
  rfl

/-- An open brace with balanced tokens behind it is on top of the stack. -/
theorem openStack_of_balanced (before : List Token) {o : Token} {inner : List Token}
    (ho : o.isPunct '{' = true) (h : Balanced inner) :
    openStack (before ++ o :: inner) = before.length :: openStack before := by
  rw [← List.concat_append, List.concat_eq_append, openStack, openFrom_append,
    openFrom_balanced h]
  exact openStack_concat_opening before ho

/-- The induction over the tokens from their end, by the role of the last one. -/
theorem brace_induction {motive : List Token → Prop} (nil : motive [])
    (opening : ∀ ts o, o.isPunct '{' = true → (∀ us, us.length ≤ ts.length → motive us) →
      motive (ts ++ [o]))
    (closing : ∀ ts c, c.isPunct '}' = true → (∀ us, us.length ≤ ts.length → motive us) →
      motive (ts ++ [c]))
    (plain : ∀ ts t, t.isBrace = false → (∀ us, us.length ≤ ts.length → motive us) →
      motive (ts ++ [t]))
    (ts : List Token) : motive ts := by
  induction hn : ts.length using Nat.strongRecOn generalizing ts with
  | ind n ih =>
      subst hn
      rcases List.eq_nil_or_concat ts with rfl | ⟨init, t, rfl⟩
      · exact nil
      · rw [List.concat_eq_append] at ih ⊢
        have hlt : ∀ us : List Token, us.length ≤ init.length → motive us := fun us h =>
          ih us.length (by simp only [List.length_append, List.length_singleton]; omega) us rfl
        rcases t.structural_cases with ho | hc | hs | hp
        · exact opening init t ho hlt
        · exact closing init t hc hlt
        · exact plain init t (Token.not_isBrace_of_semicolon hs) hlt
        · exact plain init t (Token.not_isBrace_of_not_structural hp) hlt

/-- Behind the brace on top of the stack the tokens are balanced, and before it the rest of the
stack is open. -/
theorem exists_of_openStack_eq_cons {ts : List Token} {i : Nat} {rest : List Nat}
    (h : openStack ts = i :: rest) :
    ∃ before o inner, ts = before ++ o :: inner ∧ o.isPunct '{' = true ∧ Balanced inner ∧
      i = before.length ∧ openStack before = rest := by
  induction ts using brace_induction generalizing i rest with
  | nil => cases h
  | opening ts o ho _ =>
      rw [openStack_concat_opening _ ho, List.cons.injEq] at h
      exact ⟨ts, o, [], rfl, ho, .nil, h.1.symm, h.2⟩
  | plain ts t ht ih =>
      rw [openStack_concat_plain _ ht] at h
      obtain ⟨before, o, inner, rfl, ho, hb, hi, hr⟩ := ih ts (Nat.le_refl _) h
      exact ⟨before, o, inner ++ [t], by simp, ho, hb.concat_plain ht, hi, hr⟩
  | closing ts c hc ih =>
      rw [openStack_concat_closing _ hc] at h
      -- the closing brace has closed `k`, the block that it ends belongs to the inner tokens
      cases hk : openStack ts with
      | nil => simp [hk] at h
      | cons k below =>
          rw [hk, List.tail_cons] at h
          obtain ⟨mid, o', inner', rfl, ho', hb', -, hmid⟩ := ih ts (Nat.le_refl _) hk
          have hlen : mid.length ≤ (mid ++ o' :: inner').length := by simp
          obtain ⟨before, o, inner, rfl, ho, hb, hi, hr⟩ := ih mid hlen (hmid.trans h)
          refine ⟨before, o, inner ++ (o' :: inner' ++ [c]), by simp, ho, ?_, hi, hr⟩
          exact hb.append (hb'.enclose ho' hc)

/-- The stack holds positions of the tokens, the innermost being the last one. -/
theorem openStack_sorted (ts : List Token) :
    (openStack ts).Pairwise (· > ·) ∧ ∀ i ∈ openStack ts, i < ts.length := by
  induction ts using brace_induction with
  | nil => exact ⟨.nil, by simp [openStack, openFrom]⟩
  | opening ts o ho ih =>
      obtain ⟨hp, hl⟩ := ih ts (Nat.le_refl _)
      rw [openStack_concat_opening _ ho]
      refine ⟨List.pairwise_cons.mpr ⟨hl, hp⟩, fun i hi => ?_⟩
      rw [List.length_append, List.length_singleton]
      rcases List.mem_cons.mp hi with rfl | hi
      · exact Nat.lt_succ_self _
      · exact Nat.lt_succ_of_lt (hl i hi)
  | closing ts c hc ih =>
      obtain ⟨hp, hl⟩ := ih ts (Nat.le_refl _)
      rw [openStack_concat_closing _ hc]
      refine ⟨hp.sublist (List.tail_sublist _), fun i hi => ?_⟩
      rw [List.length_append, List.length_singleton]
      exact Nat.lt_succ_of_lt (hl i (List.mem_of_mem_tail hi))
  | plain ts t ht ih =>
      obtain ⟨hp, hl⟩ := ih ts (Nat.le_refl _)
      rw [openStack_concat_plain _ ht]
      refine ⟨hp, fun i hi => ?_⟩
      rw [List.length_append, List.length_singleton]
      exact Nat.lt_succ_of_lt (hl i hi)

/-! ## Partners and the stack -/

/-- The partner of a last `}` is the brace on top of the stack. -/
theorem partners_concat_iff {ts : List Token} {c : Token} {i : Nat} :
    Partners (ts ++ [c]) i ts.length ↔
      c.isPunct '}' = true ∧ (openStack ts).head? = some i := by
  constructor
  · rintro ⟨before, o, inner, c', after, h, ho, hc, hb, rfl, hj⟩
    obtain ⟨rfl, h'⟩ := List.append_inj h hj
    obtain ⟨rfl, -⟩ := List.cons.inj h'
    exact ⟨hc, by rw [openStack_of_balanced _ ho hb, List.head?_cons]⟩
  · rintro ⟨hc, hi⟩
    obtain ⟨rest, hr⟩ := List.head?_eq_some_iff.mp hi
    obtain ⟨before, o, inner, rfl, ho, hb, rfl, -⟩ := exists_of_openStack_eq_cons hr
    exact ⟨before, o, inner, c, [], by simp, ho, hc, hb, rfl, rfl⟩

/-- A position before a last token has its partners already, or the last token is one. -/
theorem exists_partner_concat {ts : List Token} {t : Token} {i : Nat} :
    (∃ j, Partners (ts ++ [t]) i j) ↔
      (∃ j, Partners ts i j) ∨ t.isPunct '}' = true ∧ (openStack ts).head? = some i := by
  constructor
  · rintro ⟨j, h⟩
    have hj := h.lt_length.2
    rw [List.length_append, List.length_singleton] at hj
    rcases Nat.lt_or_eq_of_le (Nat.le_of_lt_succ hj) with hlt | rfl
    · exact Or.inl ⟨j, (partners_append _ hlt).mp h⟩
    · exact Or.inr (partners_concat_iff.mp h)
  · rintro (⟨j, h⟩ | h)
    · exact ⟨j, (partners_append _ h.lt_length.2).mpr h⟩
    · exact ⟨ts.length, partners_concat_iff.mpr h⟩

/-- A last token changes nothing about the tokens before it. -/
theorem opening_at_concat {ts : List Token} {t : Token} {i : Nat} :
    (ts ++ [t])[i]?.any (·.isPunct '{') = true ↔
      ts[i]?.any (·.isPunct '{') = true ∨ i = ts.length ∧ t.isPunct '{' = true := by
  rcases Nat.lt_trichotomy i ts.length with hlt | rfl | hgt
  · rw [List.getElem?_append_left hlt]
    simp [Nat.ne_of_lt hlt]
  · simp
  · have hnil : (ts ++ [t])[i]? = none := by
      rw [List.getElem?_eq_none_iff, List.length_append, List.length_singleton]
      omega
    rw [hnil, List.getElem?_eq_none (Nat.le_of_lt hgt)]
    simp [Nat.ne_of_gt hgt]

/-- Closing a brace takes the top off the stack. -/
theorem mem_tail_openStack {ts : List Token} {i : Nat} :
    i ∈ (openStack ts).tail ↔ i ∈ openStack ts ∧ (openStack ts).head? ≠ some i := by
  have hs := (openStack_sorted ts).1
  cases hk : openStack ts with
  | nil => simp
  | cons k below =>
      have hlt : ∀ j ∈ below, j < k := (List.pairwise_cons.mp (hk ▸ hs)).1
      rw [List.tail_cons, List.mem_cons, List.head?_cons, Ne, Option.some.injEq]
      constructor
      · intro hi
        exact ⟨Or.inr hi, fun h => absurd (hlt i hi) (h ▸ Nat.lt_irrefl k)⟩
      · rintro ⟨rfl | hi, hne⟩
        · exact absurd rfl hne
        · exact hi

/-- The stack holds the positions of the `{` without a partner. -/
theorem mem_openStack_iff {ts : List Token} {i : Nat} :
    i ∈ openStack ts ↔ ts[i]?.any (·.isPunct '{') = true ∧ ¬∃ j, Partners ts i j := by
  induction ts using brace_induction with
  | nil => simp [openStack, openFrom]
  | opening ts o ho ih =>
      have hc := Token.not_isPunct_of_ne ho (show '{' ≠ '}' by decide)
      -- a brace that has just been opened has no partner before itself
      have hlast : i = ts.length → ¬∃ j, Partners ts i j := by
        rintro rfl ⟨j, h⟩
        exact Nat.lt_irrefl _ (Nat.lt_trans h.lt_length.1 h.lt_length.2)
      rw [openStack_concat_opening _ ho, List.mem_cons, ih ts (Nat.le_refl _),
        exists_partner_concat, opening_at_concat]
      simp only [hc, ho, Bool.false_eq_true, false_and, or_false, and_true]
      constructor
      · rintro (hi | ⟨hi, hno⟩)
        · exact ⟨Or.inr hi, hlast hi⟩
        · exact ⟨Or.inl hi, hno⟩
      · rintro ⟨hi | hi, hno⟩
        · exact Or.inr ⟨hi, hno⟩
        · exact Or.inl hi
  | closing ts c hc ih =>
      -- both sides lose the same position: the partner of the new brace is the top of the stack
      have ho := Token.not_isPunct_of_ne hc (show '}' ≠ '{' by decide)
      rw [openStack_concat_closing _ hc, mem_tail_openStack, ih ts (Nat.le_refl _),
        exists_partner_concat, opening_at_concat, not_or, and_assoc]
      simp [hc, ho]
  | plain ts t ht ih =>
      obtain ⟨ho, hc⟩ := Token.not_isPunct_of_not_isBrace ht
      rw [openStack_concat_plain _ ht, ih ts (Nat.le_refl _), exists_partner_concat,
        opening_at_concat]
      simp [hc, ho]

/-- A `{` has a partner if it is not open any more. -/
theorem exists_partner_iff {ts : List Token} {i : Nat} :
    (∃ j, Partners ts i j) ↔ ts[i]?.any (·.isPunct '{') = true ∧ i ∉ openStack ts := by
  rw [mem_openStack_iff]
  constructor
  · rintro ⟨j, h⟩
    have ho : ts[i]?.any (·.isPunct '{') = true := by
      obtain ⟨before, o, inner, c, after, rfl, ho, -, -, rfl, -⟩ := h
      simp [ho]
    exact ⟨ho, fun hno => hno.2 ⟨j, h⟩⟩
  · rintro ⟨ho, hno⟩
    exact Classical.not_not.mp fun h => hno ⟨ho, h⟩

/-- The partner of a `}` is the last brace that is open before it. -/
theorem partners_iff {ts : List Token} {i j : Nat} :
    Partners ts i j ↔
      ts[j]?.any (·.isPunct '}') = true ∧ (openStack (ts.take j)).head? = some i := by
  rcases Nat.lt_or_ge j ts.length with hj | hj
  · have hlen : (ts.take j).length = j := by
      rw [List.length_take, Nat.min_eq_left (Nat.le_of_lt hj)]
    -- only the tokens up to the one at `j` matter, and there it is the last one
    have hsplit : ts.take j ++ [ts[j]] ++ ts.drop (j + 1) = ts := by
      rw [List.take_append_getElem hj, List.take_append_drop]
    have hlt : (ts.take j).length < (ts.take j ++ [ts[j]]).length := by
      rw [List.length_append, List.length_singleton]
      exact Nat.lt_succ_self _
    have hcut := partners_append (i := i) (ts.drop (j + 1)) hlt
    rw [hsplit, partners_concat_iff, hlen] at hcut
    rw [hcut, List.getElem?_eq_getElem hj, Option.any_some]
  · refine iff_of_false (fun h => absurd h.lt_length.2 (Nat.not_lt.mpr hj)) ?_
    simp [List.getElem?_eq_none hj]

/-- A `}` has a partner if some `{` is open where it stands. -/
theorem exists_partner_iff_take {ts : List Token} {j : Nat} :
    (∃ i, Partners ts i j) ↔ ts[j]?.any (·.isPunct '}') = true ∧ openStack (ts.take j) ≠ [] := by
  simp only [partners_iff]
  rw [exists_and_left]
  cases openStack (ts.take j) <;> simp

/-- A `{` has no more than one partner. -/
theorem Partners.not_lt {ts : List Token} {i j k : Nat} (hj : Partners ts i j)
    (hk : Partners ts i k) : ¬j < k := by
  intro hlt
  -- where the later partner stands the brace is open, so it had none before
  have hopen : i ∈ openStack (ts.take k) := List.mem_of_mem_head? (partners_iff.mp hk).2
  have hlen : j < (ts.take k).length := by
    rw [List.length_take, Nat.min_eq_left (Nat.le_of_lt hk.lt_length.2)]
    exact hlt
  have hbefore : Partners (ts.take k) i j := by
    rwa [← partners_append (ts.drop k) hlen, List.take_append_drop]
  exact (mem_openStack_iff.mp hopen).2 ⟨j, hbefore⟩

/-- Blocks are nested: what is opened in a block is closed there. -/
theorem Partners.nested {ts : List Token} {i j p q : Nat} (h : Partners ts i j)
    (h' : Partners ts p q) (hp : i < p ∧ p < j) : q < j := by
  have hj := h.lt_length.2
  have hsort := (openStack_sorted (ts.take j)).1
  -- the brace at `i` is the last one open before `j`, so the one at `p` is closed by then
  obtain ⟨rest, hrest⟩ := List.head?_eq_some_iff.mp (partners_iff.mp h).2
  have hclosed : p ∉ openStack (ts.take j) := by
    rw [hrest, List.mem_cons, not_or]
    refine ⟨Nat.ne_of_gt hp.1, fun hmem => ?_⟩
    have := (List.pairwise_cons.mp (hrest ▸ hsort)).1 p hmem
    omega
  have hbrace : (ts.take j)[p]?.any (·.isPunct '{') = true := by
    rw [List.getElem?_take_of_lt hp.2]
    exact (exists_partner_iff.mp ⟨q, h'⟩).1
  obtain ⟨k, hk⟩ := exists_partner_iff.mpr ⟨hbrace, hclosed⟩
  have hkj : k < j := by
    have := hk.lt_length.2
    rwa [List.length_take, Nat.min_eq_left (Nat.le_of_lt hj)] at this
  have hpartner : Partners ts p k := by
    rw [← List.take_append_drop j ts]
    exact (partners_append _ hk.lt_length.2).mpr hk
  exact Nat.lt_of_le_of_lt (Nat.not_lt.mp (hpartner.not_lt h')) hkj

instance (ts : List Token) (i j : Nat) : Decidable (Partners ts i j) :=
  decidable_of_iff _ partners_iff.symm

instance (ts : List Token) (i : Nat) : Decidable (∃ j, Partners ts i j) :=
  decidable_of_iff _ exists_partner_iff.symm

instance (ts : List Token) (j : Nat) : Decidable (∃ i, Partners ts i j) :=
  decidable_of_iff _ exists_partner_iff_take.symm

/-! ## Braces with and without a partner -/

/-- The `{` without a partner, each with its position. -/
def unclosed (ts : List Token) : List (Token × Nat) :=
  ts.zipIdx.filter fun p => p.1.isPunct '{' ∧ ¬∃ j, Partners ts p.2 j

/-- The `}` that have a partner, or those that have none, each with its position. -/
def closings (paired : Bool) (ts : List Token) : List (Token × Nat) :=
  ts.zipIdx.filter fun p => p.1.isPunct '}' && decide (∃ i, Partners ts i p.2) == paired

/-- The `}` with a partner. -/
abbrev matched (ts : List Token) : List (Token × Nat) := closings true ts

/-- The `}` without a partner. -/
abbrev stray (ts : List Token) : List (Token × Nat) := closings false ts

theorem zipIdx_concat (ts : List Token) (t : Token) :
    (ts ++ [t]).zipIdx = ts.zipIdx ++ [(t, ts.length)] := by
  simp [List.zipIdx_append]

/-- The `{` without a partner stand on the stack. -/
theorem unclosed_eq (ts : List Token) :
    unclosed ts = ts.zipIdx.filter fun p => p.2 ∈ openStack ts := by
  refine List.filter_congr fun p hp => ?_
  have hget := List.mem_zipIdx_iff_getElem?.mp hp
  simp only [mem_openStack_iff, hget, Option.any_some]

theorem unclosed_eq_nil_iff {ts : List Token} : unclosed ts = [] ↔ openStack ts = [] := by
  rw [unclosed_eq, List.filter_eq_nil_iff]
  constructor
  · intro h
    cases hk : openStack ts with
    | nil => rfl
    | cons i rest =>
        have hi : i ∈ openStack ts := hk ▸ List.mem_cons_self
        have hlt := (openStack_sorted ts).2 i hi
        have hmem : (ts[i], i) ∈ ts.zipIdx := List.mk_mem_zipIdx_iff_getElem?.mpr (by simp [hlt])
        exact absurd (decide_eq_true hi) (h _ hmem)
  · intro h p _
    simp [h]

/-- What stands on the stack of a first part stands in that part. -/
theorem filter_openStack_append (before after : List Token) :
    ((before ++ after).zipIdx.filter fun p => p.2 ∈ openStack before) = unclosed before := by
  have hno : ((after.zipIdx before.length).filter fun p => p.2 ∈ openStack before) = [] := by
    rw [List.filter_eq_nil_iff]
    intro p hp hmem
    have hlt := (openStack_sorted before).2 _ (of_decide_eq_true hmem)
    exact absurd (List.le_snd_of_mem_zipIdx hp) (Nat.not_le.mpr hlt)
  rw [List.zipIdx_append, List.filter_append, Nat.zero_add, hno, List.append_nil, unclosed_eq]

/-- A `{` at the end is without a partner, and changes nothing for those before it. -/
theorem unclosed_concat_opening (ts : List Token) {o : Token} (ho : o.isPunct '{' = true) :
    unclosed (ts ++ [o]) = unclosed ts ++ [(o, ts.length)] := by
  have hcongr : (ts.zipIdx.filter fun p => p.2 ∈ ts.length :: openStack ts) =
      ts.zipIdx.filter fun p => p.2 ∈ openStack ts := by
    refine List.filter_congr fun p hp => ?_
    have hne : p.2 ≠ ts.length := Nat.ne_of_lt (List.snd_lt_of_mem_zipIdx hp)
    simp only [List.mem_cons, hne, false_or]
  rw [unclosed_eq, unclosed_eq, zipIdx_concat, List.filter_append, openStack_concat_opening _ ho,
    hcongr]
  simp

theorem unclosed_concat_plain (ts : List Token) {t : Token} (ht : t.isBrace = false) :
    unclosed (ts ++ [t]) = unclosed ts := by
  rw [unclosed_eq, openStack_concat_plain _ ht, filter_openStack_append]

/-- Balanced tokens behind a `{` leave it the last one without a partner. -/
theorem unclosed_of_balanced (before : List Token) {o : Token} {inner : List Token}
    (ho : o.isPunct '{' = true) (h : Balanced inner) :
    unclosed (before ++ o :: inner) = unclosed before ++ [(o, before.length)] := by
  have hs : openStack (before ++ o :: inner) = openStack (before ++ [o]) := by
    rw [openStack_of_balanced _ ho h, openStack_concat_opening _ ho]
  rw [← unclosed_concat_opening _ ho, unclosed_eq, hs, List.append_cons before o inner,
    filter_openStack_append]

/-- A `}` at the end is the partner of the last `{` without one. -/
theorem unclosed_concat_closing (ts : List Token) {c : Token} (hc : c.isPunct '}' = true) :
    unclosed (ts ++ [c]) = (unclosed ts).dropLast := by
  rw [unclosed_eq (ts ++ [c]), openStack_concat_closing _ hc]
  cases hk : openStack ts with
  | nil => simp [unclosed_eq_nil_iff.mpr hk]
  | cons i rest =>
      obtain ⟨before, o, inner, rfl, ho, hb, rfl, rfl⟩ := exists_of_openStack_eq_cons hk
      rw [unclosed_of_balanced _ ho hb, List.dropLast_concat, List.tail_cons, List.append_assoc,
        filter_openStack_append]

/-- A `}` at the end has a partner if some `{` before it has none. -/
theorem exists_partner_last_iff {ts : List Token} {c : Token} (hc : c.isPunct '}' = true) :
    (∃ i, Partners (ts ++ [c]) i ts.length) ↔ unclosed ts ≠ [] := by
  simp only [partners_concat_iff, hc, true_and, ne_eq, unclosed_eq_nil_iff]
  cases openStack ts <;> simp

/-- What a closing brace has for a partner is settled where it stands. -/
theorem closings_append (paired : Bool) (ts us : List Token) :
    closings paired (ts ++ us) = closings paired ts ++
      (us.zipIdx ts.length).filter fun p : Token × Nat =>
        p.1.isPunct '}' && decide (∃ i, Partners (ts ++ us) i p.2) == paired := by
  rw [closings, List.zipIdx_append, List.filter_append, Nat.zero_add]
  congr 1
  refine List.filter_congr fun p hp => ?_
  have hiff : (∃ i, Partners (ts ++ us) i p.2) ↔ ∃ i, Partners ts i p.2 :=
    exists_congr fun _ => partners_append us (List.snd_lt_of_mem_zipIdx hp)
  simp only [hiff]

/-- A `}` at the end is the only closing brace that its token adds. -/
theorem closings_concat_closing (paired : Bool) (ts : List Token) {c : Token}
    (hc : c.isPunct '}' = true) :
    closings paired (ts ++ [c]) =
      closings paired ts ++ if (unclosed ts).isEmpty = !paired then [(c, ts.length)] else [] := by
  rw [closings_append]
  congr 1
  cases hu : (unclosed ts).isEmpty <;> cases paired <;>
    simp_all [exists_partner_last_iff hc]

theorem closings_concat_of_not_closing (paired : Bool) (ts : List Token) {t : Token}
    (ht : t.isPunct '}' = false) : closings paired (ts ++ [t]) = closings paired ts := by
  rw [closings_append]
  simp [ht]

/-! ## Balanced words -/

/-- Where a `}` stands in a balanced list, a brace is open. -/
theorem Balanced.openFrom_before_closing {ts : List Token} (h : Balanced ts)
    {before after : List Token} {c : Token} (hts : ts = before ++ c :: after)
    (hc : c.isPunct '}' = true) (n : Nat) (stack : List Nat) :
    ∃ i inside, openFrom n stack before = i :: (inside ++ stack) := by
  induction h generalizing before after n stack with
  | nil => simp at hts
  | plain ht _ ih =>
      cases before with
      | nil =>
          obtain ⟨rfl, -⟩ := List.cons.inj hts
          simp [Token.isBrace, hc] at ht
      | cons b before =>
          obtain ⟨rfl, htl⟩ := List.cons.inj hts
          rw [openFrom_plain _ _ _ ht]
          exact ih htl (n + 1) stack
  | @block o c' inner rest ho hc' hi _ ihi ihr =>
      cases before with
      | nil =>
          obtain ⟨rfl, -⟩ := List.cons.inj hts
          simp [Token.not_isPunct_of_ne hc] at ho
      | cons b before =>
          obtain ⟨rfl, htl⟩ := List.cons.inj hts
          rw [openFrom_opening _ _ _ ho]
          rcases List.append_eq_append_iff.mp htl with ⟨as, hb, hr⟩ | ⟨bs, hinner, hr⟩
          · cases as with
            | nil =>
                rw [hb, List.append_nil, openFrom_balanced hi]
                exact ⟨n, [], rfl⟩
            | cons a as =>
                -- the block is behind: the tokens after it are balanced as well
                obtain ⟨rfl, hrest⟩ := List.cons.inj hr
                rw [hb, openFrom_append, openFrom_balanced hi, openFrom_closing _ _ _ hc']
                exact ihr hrest _ stack
          · cases bs with
            | nil =>
                rw [List.append_nil] at hinner
                rw [← hinner, openFrom_balanced hi]
                exact ⟨n, [], rfl⟩
            | cons a bs =>
                obtain ⟨rfl, -⟩ := List.cons.inj hr
                obtain ⟨i, inside, heq⟩ := ihi hinner (n + 1) (n :: stack)
                exact ⟨i, inside ++ [n], by simp [heq]⟩

/-- **Balanced words by partners**: a list is balanced if every brace has a partner. -/
theorem balanced_iff {ts : List Token} : Balanced ts ↔ unclosed ts = [] ∧ stray ts = [] := by
  constructor
  · intro h
    refine ⟨unclosed_eq_nil_iff.mpr (openFrom_balanced h 0 []), ?_⟩
    rw [stray, closings, List.filter_eq_nil_iff]
    rintro ⟨c, j⟩ hp hstray
    obtain ⟨hc, hno⟩ : c.isPunct '}' = true ∧ ¬∃ i, Partners ts i j := by simpa using hstray
    have hget := List.mk_mem_zipIdx_iff_getElem?.mp hp
    obtain ⟨hj, rfl⟩ := List.getElem?_eq_some_iff.mp hget
    have hsplit : ts = ts.take j ++ ts[j] :: ts.drop (j + 1) := by
      rw [List.getElem_cons_drop, List.take_append_drop]
    obtain ⟨i, inside, heq⟩ := h.openFrom_before_closing hsplit hc 0 []
    -- where a `}` of a balanced list stands, a brace is open, which is its partner
    refine hno (exists_partner_iff_take.mpr ⟨by simp [hget, hc], ?_⟩)
    rw [openStack, heq]
    exact List.cons_ne_nil _ _
  · -- from the last token: a closing brace ends a block, and what is before it is shorter
    rintro ⟨hu, hs⟩
    induction ts using brace_induction with
    | nil => exact .nil
    | opening ts o ho _ =>
        rw [unclosed_concat_opening _ ho] at hu
        simp at hu
    | plain ts t ht ih =>
        rw [unclosed_concat_plain _ ht] at hu
        rw [stray, closings_concat_of_not_closing _ _ (Token.not_isPunct_of_not_isBrace ht).2] at hs
        exact (ih ts (Nat.le_refl _) hu hs).concat_plain ht
    | closing ts c hc ih =>
        rw [unclosed_concat_closing _ hc] at hu
        rw [stray, closings_concat_closing _ _ hc, List.append_eq_nil_iff] at hs
        obtain ⟨hs, hlast⟩ := hs
        cases hk : openStack ts with
        | nil => simp [unclosed_eq_nil_iff.mpr hk] at hlast
        | cons i rest =>
            obtain ⟨before, o, inner, rfl, ho, hb, rfl, rfl⟩ := exists_of_openStack_eq_cons hk
            rw [unclosed_of_balanced _ ho hb, List.dropLast_concat] at hu
            rw [closings_append, List.append_eq_nil_iff] at hs
            have hbefore := ih before (by simp) hu hs.1
            simpa using hbefore.append (hb.enclose ho hc)

instance : DecidablePred Balanced := fun _ => decidable_of_iff _ balanced_iff.symm

end DeclTags
