import DeclTags.Proofs.Literals
import Mathlib.Order.Bounds.Basic

set_option autoImplicit false

/-! # Verbatim prefixes

A verbatim prefix opens a string where it stands at the head of the text with a string delimiter
behind it (`Profile.openingPrefixes`). Of several that do the longest is taken, and one is taken if
any does (`verbatim_prefix_longest`).

A grammar keeps the prefixes sorted by their length and takes the first one that opens a string, so
that a longer one is passed over which stands in the text without a delimiter behind it. As two
different prefixes of one length cannot both stand at the head of a text, nothing depends on how a
profile orders them, nor on how often it names them.
-/

namespace DeclTags

/-- The verbatim prefixes of a profile that open a string at the head of the text. -/
def Profile.openingPrefixes (p : Profile) (text : List Char) : Set String :=
  {marker | marker ∈ p.verbatimPrefixes ∧ ∃ delimiter rest,
    text = marker.toList ++ delimiter :: rest ∧ delimiter ∈ p.stringDelimiters}

/-! ## Prefixes of one length -/

/-- Of two texts of as many bytes, one is not the beginning of the other unless they are equal. -/
theorem Text.eq_of_prefix_of_size {a b : String} (h : a.toList <+: b.toList)
    (hsize : a.utf8ByteSize = b.utf8ByteSize) : a = b := by
  obtain ⟨rest, hrest⟩ := h
  have hb : b = a ++ String.ofList rest := String.toList_inj.mp (by simp [hrest])
  rw [hb, String.utf8ByteSize_append] at hsize
  have hnone : String.ofList rest = "" := String.utf8ByteSize_eq_zero_iff.mp (by omega)
  rw [hb, hnone, String.append_empty]

/-- Prefixes of as many bytes that open a string in the same place are equal. -/
theorem Profile.openingPrefixes_inj {p : Profile} {text : List Char} {a b : String}
    (ha : a ∈ p.openingPrefixes text) (hb : b ∈ p.openingPrefixes text)
    (hsize : a.utf8ByteSize = b.utf8ByteSize) : a = b := by
  obtain ⟨-, c, rest, hc, -⟩ := ha
  obtain ⟨-, d, rest', hd, -⟩ := hb
  have ha : a.toList <+: text := ⟨c :: rest, hc.symm⟩
  have hb : b.toList <+: text := ⟨d :: rest', hd.symm⟩
  rcases List.prefix_or_prefix_of_prefix ha hb with h | h
  · exact Text.eq_of_prefix_of_size h hsize
  · exact (Text.eq_of_prefix_of_size h hsize.symm).symm

/-! ## The prefix that is found -/

namespace Grammar

variable {p : Profile} {text : List Char} {marker : String}

theorem mem_openingPrefixes_iff : marker ∈ p.openingPrefixes text ↔
    marker ∈ p.verbatimPrefixes ∧ (ofProfile p).opensVerbatim text marker = true := by
  rw [opensVerbatim_iff]
  simp [Profile.openingPrefixes, BeginsVerbatim, isStringDelimiter, ofProfile]

instance : Decidable (marker ∈ p.openingPrefixes text) :=
  decidable_of_iff _ mem_openingPrefixes_iff.symm

theorem mem_verbatimPrefixes_iff :
    marker ∈ (ofProfile p).verbatimPrefixes ↔ marker ∈ p.verbatimPrefixes := List.mem_mergeSort

/-- A grammar has the longest prefixes first. -/
theorem verbatimPrefixes_sorted (p : Profile) :
    (ofProfile p).verbatimPrefixes.Pairwise fun a b => b.utf8ByteSize ≤ a.utf8ByteSize := by
  refine (List.pairwise_mergeSort ?trans ?total p.verbatimPrefixes).imp of_decide_eq_true
  case trans =>
    intro a b c hab hbc
    rw [decide_eq_true_eq] at *
    exact hbc.trans hab
  case total =>
    intro a b
    rw [Bool.or_eq_true, decide_eq_true_eq, decide_eq_true_eq]
    exact Nat.le_total _ _

theorem verbatimPrefix?_eq_none_iff :
    (ofProfile p).verbatimPrefix? text = none ↔ p.openingPrefixes text = ∅ := by
  rw [verbatimPrefix?, List.find?_eq_none, Set.eq_empty_iff_forall_notMem]
  refine forall_congr' fun marker => ?_
  rw [mem_openingPrefixes_iff, mem_verbatimPrefixes_iff, not_and]

/-- The prefix that is found is longer than all others that open a string there. -/
theorem longest_of_verbatimPrefix? (h : (ofProfile p).verbatimPrefix? text = some marker) :
    marker ∈ p.openingPrefixes text ∧
      ∀ other ∈ p.openingPrefixes text, other.utf8ByteSize ≤ marker.utf8ByteSize := by
  obtain ⟨hopens, before, after, hsplit, hbefore⟩ := List.find?_eq_some_iff_append.mp h
  have hmem : marker ∈ (ofProfile p).verbatimPrefixes := by simp [hsplit]
  refine ⟨mem_openingPrefixes_iff.mpr ⟨mem_verbatimPrefixes_iff.mp hmem, hopens⟩,
    fun other hother => ?_⟩
  obtain ⟨hmem', hopens'⟩ := mem_openingPrefixes_iff.mp hother
  have hsorted := verbatimPrefixes_sorted p
  rw [← mem_verbatimPrefixes_iff] at hmem'
  rw [hsplit] at hmem' hsorted
  -- no prefix before the one that is found opens a string, and those behind it are no longer
  rcases List.mem_append.mp hmem' with hin | hin
  · have hcloses := hbefore other hin
    rw [hopens'] at hcloses
    cases hcloses
  · rcases List.mem_cons.mp hin with rfl | hin
    · exact Nat.le_refl _
    · exact List.rel_of_pairwise_cons (List.pairwise_append.mp hsorted).2.1 hin

/-- **The prefix that is found is the longest one** that opens a string there. -/
theorem verbatimPrefix?_eq_some_iff : (ofProfile p).verbatimPrefix? text = some marker ↔
    marker ∈ p.openingPrefixes text ∧
      ∀ other ∈ p.openingPrefixes text, other.utf8ByteSize ≤ marker.utf8ByteSize := by
  refine ⟨longest_of_verbatimPrefix?, ?_⟩
  rintro ⟨hmem, hlongest⟩
  cases hfound : (ofProfile p).verbatimPrefix? text with
  | none =>
      rw [verbatimPrefix?_eq_none_iff.mp hfound] at hmem
      exact absurd hmem (Set.notMem_empty marker)
  | some other =>
      -- both are the longest, and there is one prefix of a length
      obtain ⟨hmem', hlongest'⟩ := longest_of_verbatimPrefix? hfound
      have hsize := Nat.le_antisymm (hlongest other hmem') (hlongest' marker hmem)
      rw [Profile.openingPrefixes_inj hmem' hmem hsize]

/-- The length of the prefix that is found. -/
theorem size_verbatimPrefix?_eq_some_iff {n : Nat} :
    ((ofProfile p).verbatimPrefix? text).map (·.utf8ByteSize) = some n ↔
      IsGreatest {size | ∃ marker ∈ p.openingPrefixes text, size = marker.utf8ByteSize} n := by
  rw [Option.map_eq_some_iff]
  constructor
  · rintro ⟨marker, hfound, rfl⟩
    obtain ⟨hmem, hlongest⟩ := verbatimPrefix?_eq_some_iff.mp hfound
    refine ⟨⟨marker, hmem, rfl⟩, ?_⟩
    rintro _ ⟨other, hother, rfl⟩
    exact hlongest other hother
  · rintro ⟨⟨marker, hmem, rfl⟩, hbound⟩
    exact ⟨marker, verbatimPrefix?_eq_some_iff.mpr
      ⟨hmem, fun other hother => hbound ⟨other, hother, rfl⟩⟩, rfl⟩

end Grammar

/-! ## Prefixes written in another way -/

section Rewritten

variable {p : Profile} {prefixes : List String}
  (h : ∀ marker, marker ∈ prefixes ↔ marker ∈ p.verbatimPrefixes)

include h

theorem Profile.openingPrefixes_rewritten (text : List Char) :
    Profile.openingPrefixes { p with verbatimPrefixes := prefixes } text =
      p.openingPrefixes text := by
  ext marker
  exact and_congr_left' (h marker)

theorem Profile.fault?_rewritten :
    Profile.fault? { p with verbatimPrefixes := prefixes } = p.fault? := by
  have hany : prefixes.any (·.isEmpty) = p.verbatimPrefixes.any (·.isEmpty) := by
    rw [Bool.eq_iff_iff, List.any_eq_true, List.any_eq_true]
    simp only [h]
  simp only [Profile.fault?, hany]

theorem Grammar.verbatimPrefix?_rewritten (text : List Char) :
    (Grammar.ofProfile { p with verbatimPrefixes := prefixes }).verbatimPrefix? text =
      (Grammar.ofProfile p).verbatimPrefix? text := by
  refine Option.ext fun marker => ?_
  rw [verbatimPrefix?_eq_some_iff, verbatimPrefix?_eq_some_iff,
    Profile.openingPrefixes_rewritten h]

theorem Lexeme.atHead_rewritten (cs : List Char) :
    atHead (.ofProfile { p with verbatimPrefixes := prefixes }) cs = atHead (.ofProfile p) cs := by
  cases cs with
  | nil => rfl
  | cons c rest =>
      -- everything else that is looked for is the same field of both grammars
      simp only [atHead, Grammar.verbatimPrefix?_rewritten h]
      rfl

end Rewritten

/-- **Of the verbatim prefixes that open a string the longest is taken**, and one is taken if any
opens a string. However often and in whatever order a profile names its prefixes, it is sound or not
as before, and the lexer goes on alike from every place. -/
theorem verbatim_prefix_longest (p : Profile) :
    (∀ text,
      (∀ n, ((Grammar.ofProfile p).verbatimPrefix? text).map (·.utf8ByteSize) = some n ↔
        IsGreatest {size | ∃ marker ∈ p.openingPrefixes text, size = marker.utf8ByteSize} n) ∧
      ((Grammar.ofProfile p).verbatimPrefix? text = none ↔ p.openingPrefixes text = ∅)) ∧
    ∀ prefixes, (∀ marker, marker ∈ prefixes ↔ marker ∈ p.verbatimPrefixes) →
      Profile.fault? { p with verbatimPrefixes := prefixes } = p.fault? ∧
      ∀ l : Lexer,
        l.next? (.ofProfile { p with verbatimPrefixes := prefixes }) = l.next? (.ofProfile p) ∧
        l.tokens (.ofProfile { p with verbatimPrefixes := prefixes }) =
          l.tokens (.ofProfile p) := by
  refine ⟨fun text => ⟨fun n => Grammar.size_verbatimPrefix?_eq_some_iff,
    Grammar.verbatimPrefix?_eq_none_iff⟩, fun prefixes h => ?_⟩
  have hhead := Lexeme.atHead_rewritten h
  exact ⟨Profile.fault?_rewritten h,
    fun l => ⟨Lexer.next?_congr hhead l, Lexer.tokens_congr hhead l⟩⟩

/-- A profile in which one prefix is another one with a delimiter behind it. -/
def nestedPrefixes : Profile := { name := "x", verbatimPrefixes := ["@", "@\""] }

/-- The longer prefix is taken if a delimiter stands behind it, and else the shorter one. -/
theorem verbatim_prefix_longest_of_nested :
    let g := Grammar.ofProfile nestedPrefixes
    let turned := { nestedPrefixes with verbatimPrefixes := ["@\"", "@", "@\""] }
    (g.verbatimPrefix? "@\"\"".toList).map (·.utf8ByteSize) = some 2 ∧
      (g.verbatimPrefix? "@\"a\"".toList).map (·.utf8ByteSize) = some 1 ∧
      g.verbatimPrefix? "@a\"".toList = none ∧
      (∀ marker, marker ∈ turned.verbatimPrefixes ↔ marker ∈ nestedPrefixes.verbatimPrefixes) ∧
      tokensOf (.ofProfile turned) "@\"a\";@\"\"".toList = tokensOf g "@\"a\";@\"\"".toList := by
  intro g turned
  obtain ⟨hfound, hwritten⟩ := verbatim_prefix_longest nestedPrefixes
  have hsame : ∀ marker, marker ∈ turned.verbatimPrefixes ↔
      marker ∈ nestedPrefixes.verbatimPrefixes := by
    intro marker
    simp only [turned, nestedPrefixes, List.mem_cons, List.not_mem_nil, or_false]
    tauto
  have hboth : ∀ marker ∈ nestedPrefixes.verbatimPrefixes, marker.utf8ByteSize ≤ 2 := by decide
  have hshorter : ∀ marker ∈ nestedPrefixes.verbatimPrefixes,
      marker ∈ nestedPrefixes.openingPrefixes "@\"a\"".toList → marker.utf8ByteSize ≤ 1 := by
    decide
  have hneither : ∀ marker ∈ nestedPrefixes.verbatimPrefixes,
      marker ∉ nestedPrefixes.openingPrefixes "@a\"".toList := by
    decide
  refine ⟨((hfound _).1 2).mpr ⟨⟨"@\"", by decide, rfl⟩, ?_⟩,
    ((hfound _).1 1).mpr ⟨⟨"@", by decide, rfl⟩, ?_⟩, (hfound _).2.mpr ?_, hsame,
    ((hwritten _ hsame).2 (Lexer.ofSource _)).2⟩
  · rintro _ ⟨marker, hmem, rfl⟩
    exact hboth marker hmem.1
  · rintro _ ⟨marker, hmem, rfl⟩
    exact hshorter marker hmem.1 hmem
  · exact Set.eq_empty_of_forall_notMem fun marker hmem => hneither marker hmem.1 hmem

end DeclTags
