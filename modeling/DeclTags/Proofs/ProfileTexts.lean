import DeclTags.Proofs.Decimals
import DeclTags.Proofs.YamlDocuments

set_option autoImplicit false

/-! # Profiles read back

A profile's YAML text is read as the profile, whatever its strings are (`ofYaml_toYaml`). Each kind
of value has one lemma that what is written of it is writable, and one that it is read back from its
node: words for null are never written plainly, so that an absent keyword and a keyword `null` stay
apart, and an empty list is written and so is not taken for a missing one.
-/

namespace DeclTags

namespace Yaml

/-! ## Scalars -/

theorem isMeaningful_of_toList_nil {text : String} (h : text.toList = []) :
    isMeaningful text = true := by
  have htext : text = "" := String.toList_eq_nil_iff.mp h
  subst htext
  rfl

namespace Scalar

theorem isWritable_inQuotes (text : String) : (inQuotes text).IsWritable := by
  rw [inQuotes]
  split
  · assumption
  · trivial

theorem isWritable_ofText (text : String) : (ofText text).IsWritable := by
  rw [ofText]
  split
  · split
    · assumption
    · trivial
  · split
    · rename_i h
      rw [Bool.and_eq_true, Bool.not_eq_true'] at h
      refine ⟨fun hnil => ?_, h.2⟩
      rw [isMeaningful_of_toList_nil hnil] at h
      cases h.1
    · exact isWritable_inQuotes text

@[simp] theorem text_ofText (text : String) : (ofText text).text = text := by
  rw [ofText, inQuotes]
  split <;> first | rfl | (split <;> rfl)

/-- A text is written plainly only if it means nothing else. -/
theorem isMeaningful_of_isPlain {text : String} (h : (ofText text).isPlain = true) :
    isMeaningful text = false := by
  rw [ofText, inQuotes] at h
  split at h
  · split at h <;> cases h
  · split at h
    · rename_i hplain
      rw [Bool.and_eq_true, Bool.not_eq_true'] at hplain
      exact hplain.1
    · split at h <;> cases h

theorem hasPair_eq_false {p : Char → Bool} {cs : List Char} (h : ∀ c ∈ cs, p c = false)
    (q : Char → Bool) : hasPair p q cs = false := by
  rw [hasPair, List.any_eq_false]
  rintro ⟨c, d⟩ hmem
  simp [h c (List.of_mem_zip hmem).1]

/-- A digit stands for itself and marks nothing. -/
theorem unmarked_of_isDigit {c : Char} (h : c.isDigit = true) :
    isPrintable c = true ∧ isGap c = false
      ∧ c ∉ ['?', ':', '-', '.'] ∧ c ∉ openingIndicators := by
  have hdigits : ∀ n < 58, 48 ≤ n →
      isPrintable (Char.ofNat n) = true ∧ isGap (Char.ofNat n) = false
        ∧ Char.ofNat n ∉ ['?', ':', '-', '.'] ∧ Char.ofNat n ∉ openingIndicators := by decide
  obtain ⟨hlow, hhigh⟩ := Char.isDigit_iff_toNat.mp h
  have hc := hdigits c.toNat (Nat.lt_succ_of_le hhigh) hlow
  rwa [Char.ofNat_toNat] at hc

/-- A text of digits can be written plainly. -/
theorem allowsPlain_of_digits {cs : List Char} (h : ∀ c ∈ cs, c.isDigit = true) :
    allowsPlain cs = true := by
  have hgap : ∀ c ∈ cs, isGap c = false := fun c hc => (unmarked_of_isDigit (h c hc)).2.1
  have hbreak : ∀ c ∈ cs, isBreak c = false := fun c hc =>
    (Bool.or_eq_false_iff.mp (hgap c hc)).2
  have hspace : ∀ c ∈ cs, isSpaceChar c = false := by
    intro c hc
    rw [isSpaceChar, decide_eq_false_iff_not]
    rintro rfl
    exact absurd (hgap ' ' hc) (by decide)
  have hcolon : ∀ c ∈ cs, decide (c = ':') = false := by
    intro c hc
    rw [decide_eq_false_iff_not]
    rintro rfl
    exact absurd (h ':' hc) (by decide)
  have hlast : ∀ c ∈ cs.getLast?, c ∈ cs := fun c hc => List.mem_of_getLast? hc
  simp only [allowsPlain, Bool.and_eq_true, Bool.not_eq_true']
  refine ⟨⟨⟨⟨?_, ?_⟩, ?_⟩, ?_⟩, ?_⟩
  · rw [List.all_eq_true]
    intro c hc
    rw [(unmarked_of_isDigit (h c hc)).1, hbreak c hc]
    rfl
  · cases cs with
    | nil => rfl
    | cons c cs =>
      obtain ⟨-, -, hmark, hopening⟩ := unmarked_of_isDigit (h c List.mem_cons_self)
      simp only [List.mem_cons, not_or] at hmark
      obtain ⟨hquestion, hcolon, hhyphen, hpoint, -⟩ := hmark
      simp [beginsMarked, List.isPrefixOf, hopening, hquestion, hcolon, hhyphen, Ne.symm hhyphen,
        Ne.symm hpoint]
  · have hends : cs.getLast? ≠ some ':' := fun h => absurd (hcolon ':' (hlast ':' h)) (by decide)
    rw [isMarkedInside, hasPair_eq_false hcolon, hasPair_eq_false hgap]
    simp [hends]
  · cases cs with
    | nil => rfl
    | cons c cs => exact hspace c List.mem_cons_self
  · cases h : cs.getLast? with
    | none => rfl
    | some c => exact hspace c (hlast c h)

end Scalar

namespace Node

/-! ## Values -/

theorem isWritable_plain {text : String} (hne : text.toList ≠ [])
    (h : allowsPlain text.toList = true) : (plain text).IsWritable :=
  .scalar ⟨hne, h⟩

theorem isWritable_ofText (text : String) : (ofText text).IsWritable :=
  .scalar (Scalar.isWritable_ofText text)

theorem isWritable_ofNullable (text : Option String) : (ofNullable text).IsWritable := by
  cases text with
  | none => exact isWritable_plain (by decide) (by decide)
  | some text => exact isWritable_ofText text

theorem isWritable_ofBool (value : Bool) : (ofBool value).IsWritable := by
  cases value <;> exact isWritable_plain (by decide) (by decide)

theorem isWritable_ofTexts (texts : List String) : (ofTexts texts).IsWritable := by
  have hscalars : ofTexts texts = .list ((texts.map Scalar.ofText).map .scalar) := by
    simp [ofTexts, ofText]
  rw [hscalars]
  refine .list fun s hs => ?_
  obtain ⟨text, -, rfl⟩ := List.mem_map.mp hs
  exact Scalar.isWritable_ofText text

theorem isWritable_ofChars (chars : List Char) : (ofChars chars).IsWritable := by
  have hscalars : ofChars chars = .list ((chars.map Scalar.ofChar).map .scalar) := by
    simp [ofChars]
  rw [hscalars]
  refine .list fun s hs => ?_
  obtain ⟨c, -, rfl⟩ := List.mem_map.mp hs
  exact Scalar.isWritable_inQuotes c.toString

theorem isWritable_count (n : Nat) : (plain (toString n)).IsWritable := by
  have hdigits := Decimals.toList_toString n
  refine isWritable_plain ?_ ?_
  · rw [hdigits]
    exact Nat.toDigits_ne_nil
  · rw [hdigits]
    exact Scalar.allowsPlain_of_digits (Decimals.isDigit_of_mem n)

@[simp] theorem text?_ofText (text : String) : (ofText text).text? = some text := by
  rw [ofText, text?, Scalar.text_ofText]

@[simp] theorem nullableText?_ofNullable (text : Option String) :
    (ofNullable text).nullableText? = some text := by
  cases text with
  | none => rfl
  | some text =>
    have hnull : ((Scalar.ofText text).isPlain && isNull text) = false := by
      rw [Bool.eq_false_iff]
      intro h
      rw [Bool.and_eq_true] at h
      have hmeaningful := Scalar.isMeaningful_of_isPlain h.1
      simp [isMeaningful, h.2] at hmeaningful
    simp [ofNullable, ofText, nullableText?, hnull]

@[simp] theorem bool?_ofBool (value : Bool) : (ofBool value).bool? = some value := by
  cases value <;> rfl

/-- A list is read item by item. -/
theorem listOf?_map {α β : Type} {read : Node → Option β} {write : α → Node} {value : α → β}
    (h : ∀ a, read (write a) = some (value a)) (items : List α) :
    (list (items.map write)).listOf? read = some (items.map value) := by
  have hread : read ∘ write = fun a => pure (value a) := funext h
  rw [listOf?, List.mapM_map, hread, List.mapM_pure]
  rfl

@[simp] theorem texts?_ofTexts (texts : List String) : (ofTexts texts).texts? = some texts := by
  rw [texts?, ofTexts, listOf?_map text?_ofText, List.map_id']

@[simp] theorem listOf?_ofChars (chars : List Char) :
    (ofChars chars).listOf? char? = some chars := by
  have hchar : ∀ c : Char, char? (.scalar (.ofChar c)) = some c := by
    intro c
    have htext : (Scalar.ofChar c).text.toList = [c] := String.toList_singleton c
    simp [char?, text?, htext]
  rw [ofChars, listOf?_map hchar, List.map_id']

theorem digitsValue?_toDigits (n : Nat) : digitsValue? 10 (Nat.toDigits 10 n) = some n := by
  have hdigit : ∀ d < 10, digitValue? 10 d.digitChar = some d := by decide
  have hfold : (Nat.toDigits 10 n).foldlM (fun n c => (digitValue? 10 c).map (n * 10 + ·)) 0
      = some n := by
    induction n using Decimals.toDigits_induction with
    | one d hd => simp [hdigit d hd]
    | more n d _ hd ih => simp [List.foldlM_append, ih, hdigit d hd]
  rw [digitsValue?, if_neg (by simp [Nat.toDigits_ne_nil]), hfold]

theorem withoutSign_cons {c : Char} (hplus : c ≠ '+') (hminus : c ≠ '-') (cs : List Char) :
    withoutSign (c :: cs) = c :: cs := by
  rw [withoutSign.eq_def]
  split
  · rename_i h
    exact absurd (List.cons.inj h).1 hplus
  · rename_i h
    exact absurd (List.cons.inj h).1 hminus
  · rfl

theorem hasLeadingZero_toDigits (n : Nat) : hasLeadingZero (Nat.toDigits 10 n) = false := by
  by_cases hhead : (Nat.toDigits 10 n).head? = some '0'
  · rw [Decimals.eq_zero_of_head? n hhead]
    rfl
  · have hdigit := Decimals.isDigit_of_mem n
    obtain ⟨c, cs, hcs⟩ := List.exists_cons_of_ne_nil (Nat.toDigits_ne_nil (n := n) (b := 10))
    rw [hcs] at hdigit hhead ⊢
    have hplus : c ≠ '+' := by
      rintro rfl
      exact absurd (hdigit '+' List.mem_cons_self) (by decide)
    have hminus : c ≠ '-' := by
      rintro rfl
      exact absurd (hdigit '-' List.mem_cons_self) (by decide)
    have hzero : c ≠ '0' := by simpa using hhead
    rw [hasLeadingZero, withoutSign_cons hplus hminus]
    split
    · rename_i h
      exact absurd (List.cons.inj h).1 hzero
    · rfl

/-- Digits without a leading zero are no number in another base. -/
theorem magnitude?_toDigits (n : Nat) : magnitude? (Nat.toDigits 10 n) = some n := by
  have hdigit := Decimals.isDigit_of_mem n
  rw [magnitude?.eq_def]
  split
  · rename_i hcs
    rw [hcs] at hdigit
    exact absurd (hdigit 'x' (by simp)) (by decide)
  · rename_i hcs
    rw [hcs] at hdigit
    exact absurd (hdigit 'o' (by simp)) (by decide)
  · rename_i hcs
    rw [hcs] at hdigit
    exact absurd (hdigit 'b' (by simp)) (by decide)
  · rw [hasLeadingZero_toDigits, if_neg (by decide), digitsValue?_toDigits]

/-- The digits of a count are read as the count. -/
theorem natOf?_toString (n : Nat) : natOf? (toString n) = some n := by
  have hdigit := Decimals.isDigit_of_mem n
  rw [natOf?, Decimals.toList_toString]
  split
  · rename_i hcs
    rw [hcs] at hdigit
    exact absurd (hdigit '+' List.mem_cons_self) (by decide)
  · exact magnitude?_toDigits n

theorem count?_plain {n : Nat} (h : n < countLimit) : (plain (toString n)).count? = some n := by
  have hplain : (Scalar.mk .plain (toString n)).isPlain = true := rfl
  rw [plain, count?, if_pos hplain, natOf?_toString, Option.filter_some, decide_eq_true h,
    if_pos rfl]

/-! ## Maps -/

/-- The fields of a map that has each known name once. -/
theorem fields?_entries {known : List String} (hnodup : known.Nodup)
    (fields : List (String × Node)) (hnames : fields.map Prod.fst = known) :
    (map (entries fields)).fields? known = some fields := by
  have hread : (entries fields).mapM (fun e => e.1.text?.map fun name => (name, e.2))
      = some fields := by
    rw [entries, List.mapM_map]
    have hread := List.mapM_pure (m := Option) (l := fields) (f := id)
    rwa [List.map_id] at hread
  have honce : (known.all fun name => fields.countP (·.1 == name) ≤ 1) = true := by
    rw [List.all_eq_true]
    intro name _
    have hcount : fields.countP (·.1 == name) = (fields.map Prod.fst).count name := by
      rw [List.count, List.countP_map]
      rfl
    rw [hcount, hnames, decide_eq_true_eq]
    exact List.nodup_iff_count.mp hnodup name
  have hfields : (map (entries fields)).fields? known
      = ((entries fields).mapM fun e : Node × Node =>
          e.1.text?.map fun name => (name, e.2)).bind fun fields =>
          if known.all fun name => fields.countP (·.1 == name) ≤ 1 then some fields else none := rfl
  rw [hfields, hread, Option.bind_some, if_pos honce]

/-- Of fields with different names each one is found by its name. -/
theorem lookup_of_nodup {fields : List (String × Node)} (h : (fields.map Prod.fst).Nodup) :
    ∀ f ∈ fields, fields.lookup f.1 = some f.2 := by
  induction fields with
  | nil => intro f hf; cases hf
  | cons g fields ih =>
    rw [List.map_cons, List.nodup_cons] at h
    intro f hf
    rcases List.mem_cons.mp hf with rfl | hf
    · exact List.lookup_cons_self
    · have hne : (f.1 == g.1) = false := by
        rw [beq_eq_false_iff_ne]
        intro heq
        exact h.1 (heq ▸ List.mem_map_of_mem hf)
      rw [List.lookup_cons, hne]
      exact ih h.2 f hf

/-- A field that is given, whatever its default is. -/
theorem withDefault_of_lookup {α : Type} {default value : α} {read : Node → Option α}
    {name : String} {fields : List (String × Node)} {n : Node} (hn : fields.lookup name = some n)
    (hread : read n = some value) : withDefault default read name fields = some value := by
  rw [withDefault, hn]
  exact hread

theorem bind_of_eq_some {α β : Type} {x : Option α} {a : α} {f : α → Option β} {b : β}
    (hx : x = some a) (hf : f a = some b) : (x >>= f) = some b := by
  rw [hx]
  exact hf

end Node

end Yaml

open Yaml Yaml.Node

/-- The markers are read back, also those that are absent. -/
theorem CommentMarkers.ofNode?_toNode (c : CommentMarkers) : ofNode? c.toNode = some c := by
  have hnodup : fieldNames.Nodup := by decide
  have hfields := fields?_entries hnodup c.toFields rfl
  obtain ⟨fields, hdef⟩ : ∃ fields, fields = c.toFields := ⟨_, rfl⟩
  have hlookup : ∀ f ∈ c.toFields, fields.lookup f.1 = some f.2 := by
    rw [hdef]
    exact lookup_of_nodup hnodup
  simp only [toFields, List.forall_mem_cons] at hlookup
  rw [ofNode?, toNode, hfields, ← hdef]
  simp [withDefault, hlookup]

instance (name : String) : Decidable (Scanner.IsKeyName name) :=
  decidable_of_iff (allowsPlain name.toList = true ∧ name.toList.head?.any Char.isLower = true
    ∧ name.length ≤ 256) ⟨fun h => ⟨h.1, h.2.1, h.2.2⟩, fun h => ⟨h.plain, h.lower, h.short⟩⟩

theorem CommentMarkers.isWritable_toNode (c : CommentMarkers) : c.toNode.IsWritable := by
  have hnames : ∀ name ∈ fieldNames, Scanner.IsKeyName name := by decide +kernel
  refine .map (List.cons_ne_nil _ _) (fun f hf => ?_) ?_
  · exact hnames f.1 (List.mem_map_of_mem (f := Prod.fst) hf)
  · simp [toFields, isWritable_ofNullable]

namespace Profile

/-- Every field is read back, also where the default is something else. -/
theorem ofNode?_toFields (p : Profile) (hcount : p.maxCandidateTokens < countLimit) :
    ofNode? (.map (entries p.toFields)) = some p := by
  have hnodup : fieldNames.Nodup := by decide
  have hfields := fields?_entries hnodup p.toFields rfl
  obtain ⟨fields, hdef⟩ : ∃ fields, fields = p.toFields := ⟨_, rfl⟩
  have hlookup : ∀ f ∈ p.toFields, fields.lookup f.1 = some f.2 := by
    rw [hdef]
    exact lookup_of_nodup hnodup
  simp only [toFields, List.forall_mem_cons] at hlookup
  rw [ofNode?, hfields, ← hdef]
  obtain ⟨hname, hextensions, hkeywords, hmodifiers, hcontrol, htypes, htypeWords, hclauses,
    hconstructors, hdefault, harrow, hanonymous, hcomments, hstrings, hchars, hprefixes, hemit,
    hbodyless, htokens, -⟩ := hlookup
  refine bind_of_eq_some rfl (bind_of_eq_some hname (bind_of_eq_some (text?_ofText _) ?_))
  -- The words, by their roles.
  refine bind_of_eq_some (withDefault_of_lookup hextensions (texts?_ofTexts _)) ?_
  refine bind_of_eq_some (withDefault_of_lookup hkeywords (texts?_ofTexts _)) ?_
  refine bind_of_eq_some (withDefault_of_lookup hmodifiers (texts?_ofTexts _)) ?_
  refine bind_of_eq_some (withDefault_of_lookup hcontrol (texts?_ofTexts _)) ?_
  refine bind_of_eq_some (withDefault_of_lookup htypes (texts?_ofTexts _)) ?_
  refine bind_of_eq_some (withDefault_of_lookup htypeWords (texts?_ofTexts _)) ?_
  refine bind_of_eq_some (withDefault_of_lookup hclauses (texts?_ofTexts _)) ?_
  refine bind_of_eq_some (withDefault_of_lookup hconstructors (texts?_ofTexts _)) ?_
  refine bind_of_eq_some (withDefault_of_lookup hdefault (nullableText?_ofNullable _)) ?_
  refine bind_of_eq_some (withDefault_of_lookup harrow (nullableText?_ofNullable _)) ?_
  refine bind_of_eq_some (withDefault_of_lookup hanonymous (nullableText?_ofNullable _)) ?_
  -- Markers, delimiters and settings, for which there are defaults.
  refine bind_of_eq_some (withDefault_of_lookup hcomments (CommentMarkers.ofNode?_toNode _)) ?_
  refine bind_of_eq_some (withDefault_of_lookup hstrings (listOf?_ofChars _)) ?_
  refine bind_of_eq_some (withDefault_of_lookup hchars (listOf?_ofChars _)) ?_
  refine bind_of_eq_some (withDefault_of_lookup hprefixes (texts?_ofTexts _)) ?_
  refine bind_of_eq_some (withDefault_of_lookup hemit (bool?_ofBool _)) ?_
  refine bind_of_eq_some (withDefault_of_lookup hbodyless (bool?_ofBool _)) ?_
  exact bind_of_eq_some (withDefault_of_lookup htokens (count?_plain hcount)) rfl

theorem isKeyName_of_mem : ∀ name ∈ fieldNames, Scanner.IsKeyName name := by
  decide +kernel

theorem isWritable_of_mem_toFields (p : Profile) : ∀ f ∈ p.toFields, f.2.IsWritable := by
  simp only [toFields, List.forall_mem_cons, isWritable_ofText, isWritable_ofTexts,
    isWritable_ofNullable, isWritable_ofChars, isWritable_ofBool, isWritable_count,
    CommentMarkers.isWritable_toNode, true_and]
  exact List.forall_mem_nil _

theorem toFields_ne_nil (p : Profile) : p.toFields ≠ [] := List.cons_ne_nil _ _

/-- A valid profile is what its text is read as. -/
theorem ofYaml_toYaml (p : Profile) (hvalid : p.Valid)
    (hcount : p.maxCandidateTokens < countLimit) :
    ofYaml p.toYaml = .ok p := by
  have hnames : ∀ f ∈ p.toFields, Scanner.IsKeyName f.1 := fun f hf =>
    isKeyName_of_mem f.1 (List.mem_map_of_mem (f := Prod.fst) hf)
  have hparse : parse? p.toYaml = some (.map (entries p.toFields)) :=
    parse?_render p.toFields_ne_nil hnames (isWritable_of_mem_toFields p)
  have hfault : p.fault? = none := hvalid
  rw [ofYaml, hparse, Option.bind_some, ofNode?_toFields p hcount]
  simp only [hfault]

/-- A profile with words that mean something else, with quotes, line ends and control characters,
without markers, and with empty lists where there are defaults. -/
def exotic : Profile :=
  { name := "null"
    extensions := []
    keywords := ["null", "true", "5", "", "- a: b # c"]
    modifiers := ["a\nb", "\n  a\n\n", "it's \"so\"", "\u2028 x", "\x00\t"]
    defaultValueKeyword := some "~"
    comments := ⟨none, none, none⟩
    stringDelimiters := []
    charDelimiters := ['\n', '\'', '"', '\u0085']
    emitTypeSymbols := true
    bodylessDeclarations := false
    maxCandidateTokens := 1 }

theorem ofYaml_toYaml_exotic :
    exotic.Valid ∧ exotic.maxCandidateTokens < countLimit
      ∧ ofYaml exotic.toYaml = .ok exotic := by
  have hvalid : exotic.Valid := by decide +kernel
  have hcount : exotic.maxCandidateTokens < countLimit := by decide
  exact ⟨hvalid, hcount, ofYaml_toYaml exotic hvalid hcount⟩

end Profile

end DeclTags
