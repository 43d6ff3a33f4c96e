import DeclTags.Proofs.YamlNodes

set_option autoImplicit false

/-! # Documents read back

The text of a map with writable values is read as that map (`parse?_render`): it consists of
readable characters that stay what they are (`all_isPrintable_renderEntries`), the scanner gets to
its end with the tokens of the map, and these tokens are read as the map (`ReadsNode`).
-/

namespace DeclTags.Yaml

open Scanner Relation

/-! ## Characters -/

namespace Scalar

theorem all_isPrintable_spaces (n : Nat) : (spaces n).all isPrintable = true := by
  rw [List.all_eq_true]
  intro c hc
  rw [eq_of_mem_spaces hc]
  decide

theorem all_isPrintable_singleQuotedBody (indent : Nat) (afterBreak : Bool) {cs : List Char}
    (h : cs.all isPrintable = true) :
    (singleQuotedBody indent afterBreak cs).all isPrintable = true := by
  have hspaces := all_isPrintable_spaces indent
  have hfeed : isPrintable '\n' = true := by decide
  have hquote : isPrintable '\'' = true := by decide
  induction cs generalizing afterBreak with
  | nil => cases afterBreak <;> simp [singleQuotedBody, hspaces]
  | cons c cs ih =>
    rw [List.all_cons, Bool.and_eq_true] at h
    have ih := fun afterBreak => ih afterBreak h.2
    rw [singleQuotedBody]
    split
    · rw [List.all_append, ih, Bool.and_true]
      split <;> simp [hfeed, h.1]
    · rw [List.all_append, List.all_append, ih, Bool.and_true, Bool.and_eq_true]
      constructor
      · split <;> simp [hspaces]
      · split <;> simp [hquote, h.1]

theorem isPrintable_hexDigit : ∀ d < 16,
    isPrintable (Char.ofNat (if d < 10 then 48 + d else 55 + d)) = true := by
  decide

theorem all_isPrintable_hexDigits (n code : Nat) : (hexDigits n code).all isPrintable = true := by
  rw [hexDigits, List.all_map, List.all_eq_true]
  intro i _
  exact isPrintable_hexDigit _ (Nat.mod_lt _ (by decide))

theorem all_isPrintable_escape (c : Char) : (escape c).all isPrintable = true := by
  have hbackslash : isPrintable '\\' = true := by decide
  have hletters : isPrintable 'x' = true ∧ isPrintable 'u' = true ∧ isPrintable 'U' = true := by
    decide
  have hescapes : ∀ e ∈ escapeLetters, isPrintable e.2 = true := by decide
  rw [escape]
  split
  · rename_i letter hlookup
    simp [hbackslash, hescapes _ (mem_of_lookup hlookup)]
  · split
    · simp [hbackslash, hletters, all_isPrintable_hexDigits]
    · split <;> simp [hbackslash, hletters, all_isPrintable_hexDigits]

theorem all_isPrintable_doubleQuotedBody (cs : List Char) :
    (doubleQuotedBody cs).all isPrintable = true := by
  rw [doubleQuotedBody, List.all_flatMap, List.all_eq_true]
  intro c _
  split
  · exact all_isPrintable_escape c
  · rename_i hkept
    simp only [Bool.or_eq_true, Bool.not_eq_true', not_or, Bool.not_eq_false] at hkept
    simp [hkept.1.1.1]

theorem all_isPrintable_blockBody (indent : Nat) (afterBreak : Bool) {cs : List Char}
    (h : cs.all isPrintable = true) : (blockBody indent afterBreak cs).all isPrintable = true := by
  induction cs generalizing afterBreak with
  | nil => rfl
  | cons c cs ih =>
    rw [List.all_cons, Bool.and_eq_true] at h
    have ih := fun afterBreak => ih afterBreak h.2
    rw [blockBody]
    split
    · rw [List.all_cons, h.1, ih, Bool.and_true]
    · rw [List.all_append, List.all_cons, h.1, ih]
      split <;> simp [all_isPrintable_spaces]

theorem all_isPrintable_blockHints (cs : List Char) :
    (blockHints cs).all isPrintable = true := by
  have hhints : isPrintable '2' = true ∧ isPrintable '-' = true ∧ isPrintable '+' = true := by
    decide
  rw [blockHints, List.all_append, Bool.and_eq_true]
  constructor
  · split <;> simp [hhints]
  · split
    · simp [hhints]
    · split
      · simp [hhints]
      · split <;> simp [hhints]

theorem all_isPrintable_render (indent : Nat) {s : Scalar} (hs : s.IsWritable) :
    (s.render indent).all isPrintable = true := by
  obtain ⟨style, text⟩ := s
  have hmarks : ∀ c ∈ ['\'', '"', '|', '\n'], isPrintable c = true :=
    List.all_iff_forall_prop.1 (by decide)
  cases style with
  | folded => exact absurd hs id
  | plain =>
    obtain ⟨-, hcs⟩ : text.toList ≠ [] ∧ allowsPlain text.toList = true := hs
    simp only [allowsPlain, Bool.and_eq_true] at hcs
    rw [render, List.all_eq_true]
    intro c hc
    have hc := List.all_eq_true.mp hcs.1.1.1.1 c hc
    exact (Bool.and_eq_true _ _ ▸ hc).1
  | singleQuoted =>
    have hcs : allowsSingleQuotes text.toList = true := hs
    simp only [allowsSingleQuotes, Bool.and_eq_true] at hcs
    simp [render, all_isPrintable_singleQuotedBody, hcs.1.1, hmarks]
  | doubleQuoted => simp [render, all_isPrintable_doubleQuotedBody, hmarks]
  | literal =>
    have hcs : allowsBlock text.toList = true := hs
    simp only [allowsBlock, Bool.and_eq_true] at hcs
    simp [render, all_isPrintable_blockHints, all_isPrintable_blockBody, hcs.1.1.2, hmarks]

end Scalar

theorem all_isPrintable_endLine {cs : List Char} (h : cs.all isPrintable = true) :
    (endLine cs).all isPrintable = true := by
  have hfeed : isPrintable '\n' = true := by decide
  rw [endLine]
  split
  · exact h
  · simp [h, hfeed]

theorem all_isPrintable_renderItems (k : Nat) {items : List Scalar}
    (hs : ∀ s ∈ items, s.IsWritable) :
    (renderItems k (items.map .scalar)).all isPrintable = true := by
  have hhyphen : isPrintable '-' = true := by decide
  have hspace : isPrintable ' ' = true := by decide
  induction items with
  | nil => rfl
  | cons s items ih =>
    have hline := all_isPrintable_endLine
      (Scalar.all_isPrintable_render (k + 2) (hs s List.mem_cons_self))
    have ih := ih fun x hx => hs x (List.mem_cons_of_mem s hx)
    rw [List.map_cons, renderItems, renderAfter]
    simp only [List.all_append, List.all_cons, Scalar.all_isPrintable_spaces, hhyphen, hspace,
      hline, ih, Bool.and_self]

theorem all_isPrintable_renderEntries (k : Nat) {fields : List (String × Node)}
    (hnames : ∀ f ∈ fields, IsKeyName f.1)
    (hvalues : ∀ f ∈ fields, ∀ k, (renderAfter k f.2).all isPrintable = true) :
    (renderEntries k (Node.entries fields)).all isPrintable = true := by
  have hcolon : isPrintable ':' = true := by decide
  induction fields with
  | nil => rfl
  | cons f fields ih =>
    have hname := (hnames f List.mem_cons_self)
    have hkey := Scalar.all_isPrintable_render 0 (s := ⟨.plain, f.1⟩) (by
      obtain ⟨c, cs, htext, -⟩ := hname.exists_cons
      exact ⟨by simp [htext], hname.plain⟩)
    have ih := ih (fun g hg => hnames g (List.mem_cons_of_mem f hg))
      fun g hg => hvalues g (List.mem_cons_of_mem f hg)
    have hentries : Node.entries (f :: fields) = (.plain f.1, f.2) :: Node.entries fields := rfl
    rw [hentries, renderEntries, Node.plain, renderKey]
    simp only [List.all_append, List.all_cons, Scalar.all_isPrintable_spaces, hcolon, hkey,
      hvalues f List.mem_cons_self, ih, Bool.and_self]

/-- What is written of a value is printable, by induction on what makes it writable. -/
theorem all_isPrintable_renderAfter {v : Node} (hv : v.IsWritable) :
    ∀ k, (renderAfter k v).all isPrintable = true := by
  have hfeed : isPrintable '\n' = true := by decide
  induction hv with
  | @scalar s hs =>
    intro k
    have hspace : isPrintable ' ' = true := by decide
    rw [renderAfter, List.all_cons, hspace,
      all_isPrintable_endLine (Scalar.all_isPrintable_render (k + 2) hs), Bool.and_self]
  | @list items hs =>
    intro k
    cases items with
    | nil => rfl
    | cons s items =>
      rw [renderAfter_list (by simp), List.all_cons, hfeed, all_isPrintable_renderItems k hs,
        Bool.and_self]
  | @map fields hne hnames _ ih =>
    intro k
    rw [renderAfter_map (by simpa [Node.entries] using hne), List.all_cons, hfeed,
      all_isPrintable_renderEntries (k + 2) hnames ih, Bool.and_self]

/-! ## Reading -/

/-- The tokens of a value are read as the value, whatever follows that is not one more item. -/
def ReadsNode (v : Node) : Prop :=
  ∀ (fuel : Nat) {rest : List Token}, 2 * v.tokens.length ≤ fuel → rest.head? ≠ some .item →
    readNode true true fuel (v.tokens ++ rest) = some (v, rest)

/-- The items of a list without indentation. -/
theorem readItems_tokens (items : List Scalar) {rest : List Token}
    (hrest : rest.head? ≠ some .item) :
    ∀ (fuel : Nat) (read : List Node), items.length + 2 ≤ fuel →
      readItems true read fuel (itemTokens (items.map .scalar) ++ rest)
        = some (read.reverse ++ items.map .scalar, rest) := by
  induction items with
  | nil =>
    intro fuel read hfuel
    obtain ⟨fuel, rfl⟩ : ∃ n, fuel = n + 1 := ⟨fuel - 1, by omega⟩
    rw [List.map_nil, itemTokens, List.nil_append, List.append_nil]
    cases rest with
    | nil => rfl
    | cons t rest =>
      have ht : t ≠ .item := by simpa using hrest
      cases t <;> first | rfl | exact absurd rfl ht
  | cons s items ih =>
    intro fuel read hfuel
    rw [List.length_cons] at hfuel
    obtain ⟨fuel, rfl⟩ : ∃ n, fuel = n + 3 := ⟨fuel - 3, by omega⟩
    have hitems := ih (fuel + 2) (.scalar s :: read) (by omega)
    rw [List.map_cons, itemTokens, Node.tokens, List.cons_append, readItems]
    simp [readOptional, isLeftOut, readNode, hitems]

theorem length_itemTokens (items : List Scalar) :
    (itemTokens (items.map .scalar)).length = 2 * items.length := by
  induction items with
  | nil => rfl
  | cons s items ih =>
    rw [List.map_cons, itemTokens, Node.tokens, List.length_cons, List.length_append, ih,
      List.length_singleton, List.length_cons]
    omega

/-- What a value begins with does not say that it is left out. -/
theorem isLeftOut_tokens (v : Node) (rest : List Token) :
    isLeftOut [.key, .value, .blockEnd] (v.tokens ++ rest) = false := by
  cases v with
  | scalar s => rfl
  | list items => cases items <;> simp [Node.tokens, itemTokens, isLeftOut]
  | map entries => cases entries <;> simp [Node.tokens, isLeftOut]

theorem tokens_ne_nil (v : Node) : 0 < v.tokens.length := by
  cases v with
  | scalar s => simp [Node.tokens]
  | list items => cases items <;> simp [Node.tokens, itemTokens]
  | map entries => cases entries <;> simp [Node.tokens]

/-- The entries of a map, up to its end. -/
theorem readEntries_tokens {fields : List (String × Node)}
    (hvalues : ∀ f ∈ fields, ReadsNode f.2) (rest : List Token) :
    ∀ (fuel : Nat) (read : List (Node × Node)),
      2 * (entryTokens (Node.entries fields)).length + 1 ≤ fuel →
      readEntries read fuel (entryTokens (Node.entries fields) ++ .blockEnd :: rest)
        = some (read.reverse ++ Node.entries fields, rest) := by
  induction fields with
  | nil =>
    intro fuel read hfuel
    obtain ⟨fuel, rfl⟩ : ∃ n, fuel = n + 1 := ⟨fuel - 1, by omega⟩
    simp [Node.entries, entryTokens, readEntries]
  | cons f fields ih =>
    intro fuel read hfuel
    have hentries : Node.entries (f :: fields) = (.plain f.1, f.2) :: Node.entries fields := rfl
    have hlength : (entryTokens (Node.entries (f :: fields))).length
        = f.2.tokens.length + (entryTokens (Node.entries fields)).length + 3 := by
      simp only [hentries, entryTokens, Node.plain, Node.tokens, List.length_cons,
        List.length_append, List.length_nil]
      omega
    obtain ⟨fuel, rfl⟩ : ∃ n, fuel = n + 3 := ⟨fuel - 3, by omega⟩
    have hnext : (entryTokens (Node.entries fields) ++ .blockEnd :: rest).head? ≠ some .item := by
      cases fields <;> simp [Node.entries, entryTokens]
    have hvalue := hvalues f List.mem_cons_self (fuel + 1) (by omega) hnext
    have hrest := ih (fun g hg => hvalues g (List.mem_cons_of_mem f hg)) (fuel + 2)
      ((.plain f.1, f.2) :: read) (by omega)
    have hkey : readOptional true true [.key, .value, .blockEnd] (fuel + 2)
        (.scalar ⟨.plain, f.1⟩ :: .value ::
          (f.2.tokens ++ (entryTokens (Node.entries fields) ++ .blockEnd :: rest)))
        = some (.plain f.1, .value ::
          (f.2.tokens ++ (entryTokens (Node.entries fields) ++ .blockEnd :: rest))) := by
      simp [readOptional, isLeftOut, readNode, Node.plain]
    have hvalue : readOptional true true [.key, .value, .blockEnd] (fuel + 2)
        (f.2.tokens ++ (entryTokens (Node.entries fields) ++ .blockEnd :: rest))
        = some (f.2, entryTokens (Node.entries fields) ++ .blockEnd :: rest) := by
      rw [readOptional, isLeftOut_tokens, if_neg (by decide), hvalue]
    have htokens : entryTokens (Node.entries (f :: fields)) ++ .blockEnd :: rest
        = .key :: .scalar ⟨.plain, f.1⟩ :: .value ::
          (f.2.tokens ++ (entryTokens (Node.entries fields) ++ .blockEnd :: rest)) := by
      simp [hentries, entryTokens, Node.plain, Node.tokens]
    rw [htokens, readEntries, hkey]
    simp only [Option.bind_eq_bind, Option.bind_some, hvalue, hrest, hentries]
    simp

/-- Every writable value is read, by induction on what makes it writable. -/
theorem readsNode {v : Node} (hv : v.IsWritable) : ReadsNode v := by
  induction hv with
  | @scalar s _ =>
    intro fuel rest hfuel _
    rw [Node.tokens] at hfuel ⊢
    obtain ⟨fuel, rfl⟩ : ∃ n, fuel = n + 1 := ⟨fuel - 1, by simp at hfuel; omega⟩
    rfl
  | @list items _ =>
    intro fuel rest hfuel hrest
    cases items with
    | nil =>
      rw [List.map_nil, Node.tokens] at hfuel ⊢
      obtain ⟨fuel, rfl⟩ : ∃ n, fuel = n + 2 := ⟨fuel - 2, by simp at hfuel; omega⟩
      rfl
    | cons s items =>
      have hne : (s :: items).map Node.scalar ≠ [] := by simp
      rw [Node.tokens_list hne] at hfuel ⊢
      rw [length_itemTokens, List.length_cons] at hfuel
      obtain ⟨fuel, rfl⟩ : ∃ n, fuel = n + 1 := ⟨fuel - 1, by omega⟩
      have hitems := readItems_tokens (s :: items) hrest fuel [] (by
        rw [List.length_cons]
        omega)
      rw [List.map_cons, itemTokens, List.cons_append] at hitems ⊢
      simp only [readNode, hitems]
      rfl
  | @map fields hne _ _ ih =>
    intro fuel rest hfuel _
    have hne : Node.entries fields ≠ [] := by simpa [Node.entries] using hne
    rw [Node.tokens_map hne] at hfuel ⊢
    rw [List.length_cons, List.length_append, List.length_singleton] at hfuel
    obtain ⟨fuel, rfl⟩ : ∃ n, fuel = n + 1 := ⟨fuel - 1, by omega⟩
    have hentries := readEntries_tokens ih rest fuel [] (by omega)
    rw [List.cons_append, List.append_assoc, List.singleton_append, readNode]
    simp [hentries]

/-! ## Documents -/

/-- The text of a map has the tokens of the map. -/
theorem tokensOf?_render {fields : List (String × Node)} (hne : fields ≠ [])
    (hnames : ∀ f ∈ fields, IsKeyName f.1) (hvalues : ∀ f ∈ fields, f.2.IsWritable) :
    tokensOf? (render (Node.entries fields)) = some (Node.map (Node.entries fields)).tokens := by
  have hprintable := all_isPrintable_renderEntries 0 hnames fun f hf =>
    all_isPrintable_renderAfter (hvalues f hf)
  have hreadable : (renderEntries 0 (Node.entries fields)).all isReadable = true := by
    rw [List.all_eq_true] at hprintable ⊢
    exact fun c hc => isReadable_of_isPrintable (hprintable c hc)
  have hentries : Node.entries fields ≠ [] := by simpa [Node.entries] using hne
  obtain ⟨f, fields, rfl⟩ := List.exists_cons_of_ne_nil hne
  have hline := beginsLine_key (hnames f List.mem_cons_self)
    (':' :: (renderAfter 0 f.2 ++ renderEntries 0 (Node.entries fields)))
  have htext : renderEntries 0 (Node.entries (f :: fields))
      = f.1.toList ++ ':' :: (renderAfter 0 f.2 ++ renderEntries 0 (Node.entries fields)) := rfl
  have hreaches := reaches_entries [] hnames
    (fun g hg => readsValue (hvalues g hg)) (.inr ⟨rfl, rfl, rfl⟩ : OpensMap {} [] [] [.blockMap])
    (Nat.le_refl 0) beginsLine_nil rfl
  rw [closeBlocks_of_le (by simp [inBlock])] at hreaches
  have hsettle : settle? (inBlock {} (renderEntries 0 (Node.entries (f :: fields))) [] true [])
      = some (inBlock {} (renderEntries 0 (Node.entries (f :: fields))) [] true []) := by
    rw [settle?_eq none rfl (fun _ hk => by cases hk)
      (nextToken_of_beginsLine (htext ▸ hline) false true _ {}), closeBlocks_of_le rfl]
    rfl
  have hrun := run?_of_reaches hreaches rfl (finish?_inBlock 0)
    (inBlock {} (renderEntries 0 (Node.entries (f :: fields))) [] true [])
    ((renderEntries 0 (Node.entries (f :: fields))).length + 1)
    (by simpa [htext] using hsettle) (by simp [htext])
  rw [tokensOf?, render, String.toList_ofList, hreadable, if_pos rfl,
    normalized_of_printable hprintable, Node.tokens_map hentries]
  simpa [inBlock] using hrun

/-- The text of a map whose values are writable is read as that map. -/
theorem parse?_render {fields : List (String × Node)} (hne : fields ≠ [])
    (hnames : ∀ f ∈ fields, IsKeyName f.1) (hvalues : ∀ f ∈ fields, f.2.IsWritable) :
    parse? (render (Node.entries fields)) = some (.map (Node.entries fields)) := by
  have hentries : Node.entries fields ≠ [] := by simpa [Node.entries] using hne
  have htokens := tokensOf?_render hne hnames hvalues
  rw [Node.tokens_map hentries] at htokens
  have hread := readEntries_tokens (fun f hf => readsNode (hvalues f hf)) []
    (2 * (Token.blockMap :: (entryTokens (Node.entries fields) ++ [.blockEnd])).length + 1)
    [] (by
      rw [List.length_cons, List.length_append]
      omega)
  rw [parse?, htokens]
  simp only [Option.bind_eq_bind, Option.bind_some, List.head?_cons, Option.some.injEq,
    reduceCtorEq, if_false]
  rw [readNode, if_pos rfl, hread]
  rfl

end DeclTags.Yaml
