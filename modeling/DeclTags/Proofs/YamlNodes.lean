import DeclTags.Profile.Yaml
import DeclTags.Proofs.YamlScanner

set_option autoImplicit false

/-! # Nodes read back

A node is writable if its scalars are, if the items of its lists are scalars, and if its maps have
entries and names for keys. `parse?_render` says that the text of a map of writable nodes is read as
that map. The scanner's half is that it gets from the begin of a node to the begin of the next line
with the tokens of the node (`Node.tokens`), the reader's half that it reads these tokens as the
node; both go by induction on what makes a node writable.
-/

namespace DeclTags.Yaml

open Scanner Relation

/-- The node is read back from what is written for it. -/
inductive Node.IsWritable : Node → Prop
  | scalar {s : Scalar} (h : s.IsWritable) : IsWritable (.scalar s)
  | list {items : List Scalar} (h : ∀ s ∈ items, s.IsWritable) :
      IsWritable (.list (items.map .scalar))
  | map {fields : List (String × Node)} (hne : fields ≠ [])
      (hnames : ∀ f ∈ fields, IsKeyName f.1) (hvalues : ∀ f ∈ fields, IsWritable f.2) :
      IsWritable (.map (Node.entries fields))

/-! ## The tokens of a node -/

mutual

/-- The tokens of a node that is written behind a hyphen or a colon. -/
def Node.tokens : Node → List Token
  | .scalar s => [.scalar s]
  | .list [] => [.openList, .closeList]
  | .map [] => [.openMap, .closeMap]
  | .list items => itemTokens items
  | .map entries => .blockMap :: (entryTokens entries ++ [.blockEnd])

def itemTokens : List Node → List Token
  | [] => []
  | item :: items => .item :: (item.tokens ++ itemTokens items)

def entryTokens : List (Node × Node) → List Token
  | [] => []
  | (key, value) :: entries =>
    .key :: (key.tokens ++ .value :: (value.tokens ++ entryTokens entries))

end

theorem Node.tokens_list {items : List Node} (hne : items ≠ []) :
    (Node.list items).tokens = itemTokens items := by
  cases items with
  | nil => exact absurd rfl hne
  | cons item items => rw [Node.tokens]; simp

theorem Node.tokens_map {entries : List (Node × Node)} (hne : entries ≠ []) :
    (Node.map entries).tokens = .blockMap :: (entryTokens entries ++ [.blockEnd]) := by
  cases entries with
  | nil => exact absurd rfl hne
  | cons entry entries => rw [Node.tokens]; simp

theorem renderAfter_list {items : List Node} (hne : items ≠ []) (k : Nat) :
    renderAfter k (.list items) = '\n' :: renderItems k items := by
  cases items with
  | nil => exact absurd rfl hne
  | cons item items => rw [renderAfter]; simp

theorem renderAfter_map {entries : List (Node × Node)} (hne : entries ≠ []) (k : Nat) :
    renderAfter k (.map entries) = '\n' :: renderEntries (k + 2) entries := by
  cases entries with
  | nil => exact absurd rfl hne
  | cons entry entries => rw [renderAfter]; simp

/-- Behind a key or a hyphen a gap follows. -/
theorem atGap_renderAfter (k : Nat) (v : Node) (more : List Char) :
    atGap (renderAfter k v ++ more) = true := by
  cases v with
  | scalar s => rfl
  | list items => cases items <;> rfl
  | map entries => cases entries <;> rfl

/-! ## Ends of lines -/

/-- The text ends with a line, if there is any. -/
def EndsLine (cs : List Char) : Prop := cs = [] ∨ cs.getLast?.any isBreak = true

theorem endsLine_lineFeed : EndsLine ['\n'] := .inr rfl

theorem EndsLine.append {cs ds : List Char} (hcs : EndsLine cs) (hds : EndsLine ds) :
    EndsLine (cs ++ ds) := by
  rcases hds with rfl | hds
  · rwa [List.append_nil]
  · refine .inr ?_
    cases hlast : ds.getLast? with
    | none =>
      rw [hlast] at hds
      cases hds
    | some d =>
      rw [List.getLast?_append, hlast]
      rwa [hlast] at hds

theorem EndsLine.cons {cs : List Char} (hcs : EndsLine cs) (hne : cs ≠ []) (front : List Char)
    (c : Char) : EndsLine (front ++ c :: cs) := by
  refine .inr ?_
  obtain ⟨d, ds, rfl⟩ := List.exists_cons_of_ne_nil hne
  have hlast := hcs.resolve_left hne
  rwa [List.getLast?_append, List.getLast?_cons_cons, List.getLast?_cons, Option.some_or,
    ← List.getLast?_cons]

theorem endLine_ne_nil (cs : List Char) : endLine cs ≠ [] := by
  intro h
  have hlast := Scalar.isBreak_getLast?_endLine cs
  rw [h] at hlast
  cases hlast

theorem renderAfter_ne_nil (k : Nat) (v : Node) : renderAfter k v ≠ [] := by
  cases v with
  | scalar s => exact List.cons_ne_nil _ _
  | list items => cases items <;> exact List.cons_ne_nil _ _
  | map entries => cases entries <;> exact List.cons_ne_nil _ _

mutual

theorem endsLine_renderAfter (k : Nat) : ∀ v, EndsLine (renderAfter k v)
  | .scalar s =>
    EndsLine.cons (.inr (Scalar.isBreak_getLast?_endLine _)) (endLine_ne_nil _) [] ' '
  | .list [] => .inr rfl
  | .map [] => .inr rfl
  | .list (item :: items) => by
    rw [renderAfter_list (List.cons_ne_nil item items)]
    exact endsLine_lineFeed.append (endsLine_renderItems k (item :: items))
  | .map (entry :: entries) => by
    rw [renderAfter_map (List.cons_ne_nil entry entries)]
    exact endsLine_lineFeed.append (endsLine_renderEntries (k + 2) (entry :: entries))

theorem endsLine_renderItems (k : Nat) : ∀ items, EndsLine (renderItems k items)
  | [] => .inl rfl
  | item :: items =>
    EndsLine.cons ((endsLine_renderAfter k item).append (endsLine_renderItems k items))
      (by simp [renderAfter_ne_nil]) _ '-'

theorem endsLine_renderEntries (k : Nat) : ∀ entries, EndsLine (renderEntries k entries)
  | [] => .inl rfl
  | (_, value) :: entries =>
    EndsLine.cons ((endsLine_renderAfter k value).append (endsLine_renderEntries k entries))
      (by simp [renderAfter_ne_nil]) _ ':'

end

/-! ## Scanning -/

/-- The line of a scalar begins with a token. -/
theorem beginsToken_scalar {s : Scalar} (hs : s.IsWritable) (k : Nat) (more : List Char) :
    BeginsToken (endLine (s.render k) ++ more) := by
  obtain ⟨c, cs, hrender, hgap, hsign, hmark⟩ : BeginsToken (s.render k) := by
    obtain ⟨style, text⟩ := s
    cases style with
    | folded => exact absurd hs id
    | singleQuoted => exact ⟨'\'', _, rfl, by decide, by decide, by decide⟩
    | doubleQuoted => exact ⟨'"', _, rfl, by decide, by decide, by decide⟩
    | literal => exact ⟨'|', _, rfl, by decide, by decide, by decide⟩
    | plain =>
      obtain ⟨hne, hcs⟩ : text.toList ≠ [] ∧ allowsPlain text.toList = true := hs
      obtain ⟨c, cs, htext⟩ := List.exists_cons_of_ne_nil hne
      rw [htext] at hcs
      obtain ⟨hgap, hopening, -⟩ := allowsPlain_head hcs
      refine ⟨c, cs, htext, hgap, ?_, ?_⟩
      · rintro rfl
        exact absurd hopening (by decide)
      · rintro rfl
        exact absurd hcs (by simp [allowsPlain, isPrintable])
  obtain ⟨ds, hline⟩ := Scalar.endLine_cons c cs
  rw [hrender, hline]
  exact ⟨c, ds ++ more, rfl, hgap, hsign, hmark⟩

variable {p : Place} {rest : List Char} {j k : Nat} (indents : List Nat) (tokens : List Token)

/-- A scalar as a step of a run. -/
theorem steps_scalar (b : Bool) {s : Scalar} (hs : s.IsWritable) (hj : j ≤ k) (hk : k < p.column)
    (hrest : BeginsLine rest) :
    Steps (inBlock p (endLine (s.render (k + 2)) ++ (Scalar.spaces j ++ rest)) (k :: indents) b
        tokens)
      (closeBlocks (some j)
        (inBlock (p.advance (endLine (s.render (k + 2)) ++ Scalar.spaces j)) rest (k :: indents)
          true (tokens ++ [.scalar s]))) := by
  refine ⟨step_scalar hs hj hk hrest, ?_⟩
  have hpos := List.length_pos_iff.mpr (endLine_ne_nil (s.render (k + 2)))
  simp only [rest_closeBlocks, rest_inBlock, List.length_append]
  omega

/-- An item and its hyphen are two steps. -/
theorem reaches_item {s : Scalar} (hs : s.IsWritable) (hj : j ≤ k) (hrest : BeginsLine rest)
    (hp : p.column = k) :
    ReflTransGen Steps
      (inBlock p ('-' :: ' ' :: (endLine (s.render (k + 2)) ++ (Scalar.spaces j ++ rest)))
        (k :: indents) true tokens)
      (closeBlocks (some j)
        (inBlock (p.advance ('-' :: ' ' :: (endLine (s.render (k + 2)) ++ Scalar.spaces j))) rest
          (k :: indents) true (tokens ++ [.item, .scalar s]))) := by
  subst hp
  have hhyphen : (p.step '-').column = p.column + 1 := Place.step_of_not_isBreak (by decide)
  have hspace : ((p.step '-').step ' ').column = (p.step '-').column + 1 :=
    Place.step_of_not_isBreak (by decide)
  refine .head (b := inBlock ((p.step '-').step ' ')
    (endLine (s.render (p.column + 2)) ++ (Scalar.spaces j ++ rest))
    (p.column :: indents) true (tokens ++ [.item])) ⟨?_, ?_⟩ (.single ?_)
  · rw [token?_item, Option.bind_some,
      settle?_space (by omega) (beginsToken_scalar hs (p.column + 2) _)]
  · simp only [rest_inBlock, List.length_cons]
    omega
  · have hcolumn : p.column < ((p.step '-').step ' ').column := by omega
    have hstep := steps_scalar indents (tokens ++ [.item]) true hs hj hcolumn hrest
    rwa [List.append_assoc] at hstep

theorem beginsLine_item (more : List Char) : BeginsLine ('-' :: more) := by
  intro c hc
  cases hc
  exact .inr rfl

/-- The items of a list, from the first hyphen on. The next item stands in the same column. -/
theorem reaches_items {s : Scalar} {items : List Scalar} (hs : ∀ x ∈ s :: items, x.IsWritable)
    (hj : j ≤ k) (hrest : BeginsLine rest) (hp : p.column = k) :
    ReflTransGen Steps
      (inBlock p ('-' :: (renderAfter k (.scalar s) ++ renderItems k (items.map .scalar))
        ++ (Scalar.spaces j ++ rest)) (k :: indents) true tokens)
      (closeBlocks (some j)
        (inBlock (p.advance ('-' :: (renderAfter k (.scalar s)
            ++ renderItems k (items.map .scalar)) ++ Scalar.spaces j)) rest (k :: indents) true
          (tokens ++ itemTokens ((s :: items).map .scalar)))) := by
  induction items generalizing s p tokens with
  | nil =>
    have hitem := reaches_item indents tokens (hs s List.mem_cons_self) hj hrest hp
    simpa [renderAfter, renderItems, itemTokens, Node.tokens] using hitem
  | cons s' items ih =>
    have hnext := beginsLine_item
      (renderAfter k (.scalar s') ++ renderItems k (items.map .scalar) ++ (Scalar.spaces j ++ rest))
    have hitem := reaches_item indents tokens (hs s List.mem_cons_self) (Nat.le_refl k) hnext hp
    rw [closeBlocks_of_le (by simp [inBlock])] at hitem
    have hcolumn :
        (p.advance ('-' :: ' ' :: (endLine (s.render (k + 2)) ++ Scalar.spaces k))).column = k :=
      (advance_line _ (Scalar.isBreak_getLast?_endLine _) _ k).2
    have hitems := ih (tokens ++ [.item, .scalar s])
      (fun x hx => hs x (List.mem_cons_of_mem s hx)) hcolumn
    have hall := hitem.trans hitems
    simpa [renderAfter, renderItems, itemTokens, Node.tokens, Place.advance_append] using hall

/-- From behind a colon the scanner gets to the next line, with the tokens of the value. -/
def ReadsValue (v : Node) : Prop :=
  ∀ {p : Place} {rest : List Char} {j k : Nat} (indents : List Nat) (tokens : List Token),
    j ≤ k → k ≤ p.column → BeginsLine rest →
    ∃ s, settle? (inBlock p (renderAfter k v ++ (Scalar.spaces j ++ rest)) (k :: indents) false
          tokens) = some s
      ∧ s.rest.length ≤ (renderAfter k v ++ (Scalar.spaces j ++ rest)).length
      ∧ ReflTransGen Steps s (closeBlocks (some j)
          (inBlock (p.advance (renderAfter k v ++ Scalar.spaces j)) rest (k :: indents) true
            (tokens ++ v.tokens)))

theorem beginsLine_key {name : String} (h : IsKeyName name) (more : List Char) :
    BeginsLine (name.toList ++ more) := by
  obtain ⟨c, cs, htext, hlower⟩ := h.exists_cons
  intro d hd
  rw [htext] at hd
  cases hd
  exact .inl hlower

/-- A key and its colon are two steps, and then the value is read. -/
theorem reaches_entry {indents : List Nat} {f : String × Node} (hname : IsKeyName f.1)
    (hvalue : ReadsValue f.2)
    {outer : List Nat} {opened : List Token} (hopens : OpensMap p indents outer opened)
    (hj : j ≤ k) (hrest : BeginsLine rest) (hp : p.column = k) :
    ReflTransGen Steps
      (inBlock p (f.1.toList ++ ':' :: (renderAfter k f.2 ++ (Scalar.spaces j ++ rest))) indents
        true tokens)
      (closeBlocks (some j)
        (inBlock (p.advance (f.1.toList ++ ':' :: (renderAfter k f.2 ++ Scalar.spaces j))) rest
          (k :: outer) true
          (tokens ++ opened ++ [.key, .scalar ⟨.plain, f.1⟩, .value] ++ f.2.tokens))) := by
  subst hp
  have hgap := atGap_renderAfter p.column f.2 (Scalar.spaces j ++ rest)
  have hcolumn := (Place.advance_of_no_break (p := p) hname.not_break).2
  have hcolon : ((p.advance f.1.toList).step ':').column = (p.advance f.1.toList).column + 1 :=
    Place.step_of_not_isBreak (by decide)
  have hbehind : p.column ≤ ((p.advance f.1.toList).step ':').column := by omega
  obtain ⟨s, hsettle, hshorter, hreaches⟩ := hvalue outer
    (tokens ++ opened ++ [.key, .scalar ⟨.plain, f.1⟩, .value]) hj hbehind hrest
  have hplace : p.advance (f.1.toList ++ ':' :: (renderAfter p.column f.2 ++ Scalar.spaces j))
      = ((p.advance f.1.toList).step ':').advance
          (renderAfter p.column f.2 ++ Scalar.spaces j) := by
    rw [Place.advance_append, Place.advance_cons]
  rw [hplace]
  refine .head ⟨step_key hname hgap hopens, ?_⟩ (.head ⟨?_, ?_⟩ hreaches)
  · obtain ⟨c, cs, htext, -⟩ := hname.exists_cons
    simp only [rest_inBlock, htext, List.length_append, List.length_cons]
    omega
  · rw [token?_colon hgap hopens, Option.bind_some, hsettle]
  · simp only [rest_inBlock, List.length_cons]
    omega

/-- The entries of a map, from the first key on. The next key stands in the same column. -/
theorem reaches_entries {indents : List Nat} {f : String × Node} {fields : List (String × Node)}
    (hnames : ∀ g ∈ f :: fields, IsKeyName g.1) (hvalues : ∀ g ∈ f :: fields, ReadsValue g.2)
    {outer : List Nat} {opened : List Token} (hopens : OpensMap p indents outer opened)
    (hj : j ≤ k) (hrest : BeginsLine rest) (hp : p.column = k) :
    ReflTransGen Steps
      (inBlock p (f.1.toList ++ ':' :: (renderAfter k f.2 ++ renderEntries k (Node.entries fields))
        ++ (Scalar.spaces j ++ rest)) indents true tokens)
      (closeBlocks (some j)
        (inBlock (p.advance (f.1.toList ++ ':' :: (renderAfter k f.2
            ++ renderEntries k (Node.entries fields)) ++ Scalar.spaces j)) rest (k :: outer) true
          (tokens ++ opened ++ entryTokens (Node.entries (f :: fields))))) := by
  induction fields generalizing f p tokens indents opened with
  | nil =>
    have hentry := reaches_entry tokens (hnames f List.mem_cons_self)
      (hvalues f List.mem_cons_self) hopens hj hrest hp
    simpa [Node.entries, Node.plain, renderEntries, entryTokens, Node.tokens] using hentry
  | cons g fields ih =>
    have hnext := beginsLine_key (hnames g (by simp))
      (':' :: (renderAfter k g.2 ++ renderEntries k (Node.entries fields))
        ++ (Scalar.spaces j ++ rest))
    have hentry := reaches_entry tokens (hnames f List.mem_cons_self)
      (hvalues f List.mem_cons_self) hopens (Nat.le_refl k) hnext hp
    rw [closeBlocks_of_le (by simp [inBlock])] at hentry
    have hcolumn : (p.advance (f.1.toList ++ ':' :: (renderAfter k f.2 ++ Scalar.spaces k))).column
        = k := by
      rw [Place.advance_append, Place.advance_cons]
      exact (advance_line _
        ((endsLine_renderAfter k f.2).resolve_left (renderAfter_ne_nil k f.2)) _ k).2
    have hopens : OpensMap (p.advance (f.1.toList ++ ':' :: (renderAfter k f.2 ++ Scalar.spaces k)))
        (k :: outer) outer [] := .inl ⟨by rw [hcolumn], rfl⟩
    have hentries := ih (tokens ++ opened ++ [.key, .scalar ⟨.plain, f.1⟩, .value] ++ f.2.tokens)
      (fun x hx => hnames x (List.mem_cons_of_mem f hx))
      (fun x hx => hvalues x (List.mem_cons_of_mem f hx)) hopens hcolumn
    have hall := hentry.trans (by simpa using hentries)
    simpa [Node.entries, Node.plain, renderEntries, renderKey, Scalar.render, entryTokens,
      Node.tokens, Place.advance_append] using hall

/-- Behind a line feed the next line begins in the column of its indentation. -/
theorem column_nextLine (p : Place) (n : Nat) :
    (p.advance ('\n' :: Scalar.spaces n)).column = n :=
  Scalar.column_advance_spaces n (Place.step_of_isBreak (by decide))

theorem readsValue_scalar {s : Scalar} (hs : s.IsWritable) : ReadsValue (.scalar s) := by
  intro p rest j k indents tokens hj hk hrest
  have hspace : (p.step ' ').column = p.column + 1 := Place.step_of_not_isBreak (by decide)
  rw [renderAfter, List.cons_append, Node.tokens]
  refine ⟨_, settle?_space hk (beginsToken_scalar hs (k + 2) _), Nat.le_succ _, .single ?_⟩
  exact steps_scalar indents tokens false hs hj (by omega) hrest

/-- An empty list stands on the line of its key, in brackets. -/
theorem readsValue_nil : ReadsValue (.list []) := by
  intro p rest j k indents tokens hj hk hrest
  have hbracket : BeginsToken ('[' :: ']' :: '\n' :: (Scalar.spaces j ++ rest)) :=
    ⟨'[', _, rfl, by decide, by decide, by decide⟩
  have htext : [' ', '[', ']', '\n'] ++ (Scalar.spaces j ++ rest)
      = ' ' :: '[' :: ']' :: '\n' :: (Scalar.spaces j ++ rest) := rfl
  rw [renderAfter, Node.tokens, htext]
  refine ⟨_, settle?_space hk hbracket, Nat.le_succ _, ?_⟩
  refine .head ⟨step_openList, Nat.lt_succ_self _⟩ (.single ⟨?_, ?_⟩)
  · rw [token?_closeList, Option.bind_some, settle?_line _ _ _ _ j hrest, List.append_assoc]
    rfl
  · simp only [inBrackets, rest_closeBlocks, rest_inBlock, List.length_cons, List.length_append]
    omega

/-- Items stand on the lines behind that of the key, in its column. -/
theorem readsValue_items {s : Scalar} {items : List Scalar}
    (hs : ∀ x ∈ s :: items, x.IsWritable) :
    ReadsValue (.list ((s :: items).map .scalar)) := by
  intro p rest j k indents tokens hj hk hrest
  have hne : (s :: items).map Node.scalar ≠ [] := by simp
  have hline := settle?_line p (k :: indents) false tokens k (beginsLine_item
    (renderAfter k (.scalar s) ++ renderItems k (items.map .scalar) ++ (Scalar.spaces j ++ rest)))
  rw [closeBlocks_of_le (by simp [inBlock])] at hline
  have hitems := reaches_items indents tokens hs hj hrest (column_nextLine p k)
  rw [renderAfter_list hne, Node.tokens_list hne]
  refine ⟨_, by simpa [renderItems] using hline, ?_, by
    simpa [renderItems, Place.advance_append] using hitems⟩
  simp only [List.map_cons, renderItems, rest_inBlock, List.length_append, List.length_cons]
  omega

/-- Entries stand on the lines behind that of the key, two columns further in. There they open a
block that is closed behind the last of them. -/
theorem readsValue_entries {f : String × Node} {fields : List (String × Node)}
    (hnames : ∀ g ∈ f :: fields, IsKeyName g.1) (hvalues : ∀ g ∈ f :: fields, ReadsValue g.2) :
    ReadsValue (.map (Node.entries (f :: fields))) := by
  intro p rest j k indents tokens hj hk hrest
  have hne : Node.entries (f :: fields) ≠ [] := by simp [Node.entries]
  have hnext := beginsLine_key (hnames f List.mem_cons_self)
    (':' :: (renderAfter (k + 2) f.2 ++ renderEntries (k + 2) (Node.entries fields))
      ++ (Scalar.spaces j ++ rest))
  have hline := settle?_line p (k :: indents) false tokens (k + 2) hnext
  rw [closeBlocks_of_le (by simp [inBlock])] at hline
  have hopens : OpensMap (p.advance ('\n' :: Scalar.spaces (k + 2))) (k :: indents) (k :: indents)
      [.blockMap] := .inr ⟨rfl, rfl, by rw [column_nextLine]; simp⟩
  have hentries := reaches_entries tokens hnames hvalues hopens (show j ≤ k + 2 by omega) hrest
    (column_nextLine p (k + 2))
  rw [closeBlocks_cons (by omega)] at hentries
  rw [renderAfter_map hne, Node.tokens_map hne]
  refine ⟨_, by
      simpa [Node.entries, Node.plain, renderEntries, renderKey, Scalar.render] using hline,
    ?_, by
      simpa [Node.entries, Node.plain, renderEntries, renderKey, Scalar.render,
        Place.advance_append] using hentries⟩
  simp only [Node.entries, List.map_cons, renderEntries, rest_inBlock, List.length_append,
    List.length_cons, Node.plain, renderKey, Scalar.render]
  omega

/-- Every writable value is read, by induction on what makes it writable. -/
theorem readsValue {v : Node} (hv : v.IsWritable) : ReadsValue v := by
  induction hv with
  | scalar hs => exact readsValue_scalar hs
  | @list items hs =>
    cases items with
    | nil => exact readsValue_nil
    | cons s items => exact readsValue_items hs
  | map hne hnames _ ih =>
    obtain ⟨f, fields, rfl⟩ := List.exists_cons_of_ne_nil hne
    exact readsValue_entries hnames ih

end DeclTags.Yaml
