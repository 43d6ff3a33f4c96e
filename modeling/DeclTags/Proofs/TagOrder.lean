import DeclTags.Proofs.ByteOrder
import DeclTags.Proofs.TagLines

set_option autoImplicit false

/-! # Tags files in order

The tags of all files are sorted by name, path and line, and what is equal in this order keeps its
own (`filter_mergeSort`). A sorted list is known by its parts of equal elements (`eq_of_filter_eq`).
Such a part belongs to the file that is shown under its path, so the order in which the files come
makes no difference (`sortedSymbols_of_perm`). The header says that the file is sorted as a whole,
and it is: the lines of the header begin with `!`, and that stands before every character of a word.
-/

namespace DeclTags

/-! ## Sorted lists -/

section Sorted

variable {α : Type} {le : α → α → Bool} {xs ys : List α}

/-- Elements that are equal in the order keep their own order when a list is sorted. -/
theorem filter_mergeSort (htrans : ∀ a b c, le a b = true → le b c = true → le a c = true)
    (htotal : ∀ a b, (le a b || le b a) = true) {p : α → Bool}
    (hp : ∀ a b, p a = true → p b = true → le a b = true) (xs : List α) :
    (xs.mergeSort le).filter p = xs.filter p := by
  have hpairs : (xs.filter p).Pairwise fun a b => le a b = true :=
    List.pairwise_of_forall_mem_list fun a ha b hb =>
      hp a b (List.mem_filter.mp ha).2 (List.mem_filter.mp hb).2
  -- they stand in this order in the sorted list, and there are no more of them there
  have hsub := (List.sublist_mergeSort htrans htotal hpairs List.filter_sublist).filter p
  rw [List.filter_filter, List.filter_congr fun a _ => Bool.and_self (p a)] at hsub
  exact (hsub.eq_of_length ((List.mergeSort_perm xs le).filter p).length_eq.symm).symm

/-- A sorted list is known by its parts of elements that are equal in the order. -/
theorem eq_of_filter_eq (hrefl : ∀ a, le a a = true) (hxs : xs.Pairwise fun a b => le a b = true)
    (hys : ys.Pairwise fun a b => le a b = true)
    (h : ∀ a, xs.filter (fun b => le a b && le b a) = ys.filter fun b => le a b && le b a) :
    xs = ys := by
  induction xs generalizing ys with
  | nil =>
      cases ys with
      | nil => rfl
      | cons b ys =>
        have hb := h b
        simp [hrefl b] at hb
  | cons a xs ih =>
      obtain ⟨ha, htail⟩ := List.pairwise_cons.mp hxs
      cases ys with
      | nil =>
        have ha := h a
        simp [hrefl a] at ha
      | cons b ys =>
        obtain ⟨hb, htail'⟩ := List.pairwise_cons.mp hys
        -- each head is in the other list, so neither comes before the other
        have hba : le b a = true := by
          have hmem : a ∈ (b :: ys).filter fun c => le a c && le c a := h a ▸ by simp [hrefl a]
          rcases List.mem_cons.mp (List.mem_filter.mp hmem).1 with rfl | hmem
          · exact hrefl a
          · exact hb a hmem
        have hab : le a b = true := by
          have hmem : b ∈ (a :: xs).filter fun c => le b c && le c b := h b ▸ by simp [hrefl b]
          rcases List.mem_cons.mp (List.mem_filter.mp hmem).1 with rfl | hmem
          · exact hrefl b
          · exact ha b hmem
        obtain rfl : a = b := by
          have heads := h a
          rw [List.filter_cons_of_pos (by simp [hrefl a]),
            List.filter_cons_of_pos (by simp [hab, hba])] at heads
          exact List.head_eq_of_cons_eq heads
        refine congrArg _ (ih htail htail' fun c => ?_)
        have hc := h c
        rw [List.filter_cons, List.filter_cons] at hc
        split at hc
        · exact List.tail_eq_of_cons_eq hc
        · exact hc

end Sorted

/-! ## The order of tags -/

section ByText

variable {α : Type} {key : α → String} {rest : α → α → Bool} {a b c : α}

/-- The order by a text, and by another order where the texts are the same. -/
def leByText (key : α → String) (rest : α → α → Bool) (a b : α) : Bool :=
  if key a ≠ key b then Text.le (key a) (key b) else rest a b

theorem leByText_iff :
    leByText key rest a b = true ↔ key a < key b ∨ key a = key b ∧ rest a b = true := by
  rw [leByText]
  by_cases h : key a = key b
  · rw [if_neg (not_not_intro h)]
    exact ⟨fun hrest => .inr ⟨h, hrest⟩, fun hor => (hor.resolve_left (h ▸ String.lt_irrefl _)).2⟩
  · rw [if_pos h, Text.le_iff_lt_of_ne h]
    simp [h]

theorem leByText_trans (h : ∀ a b c, rest a b = true → rest b c = true → rest a c = true)
    (a b c : α) (hab : leByText key rest a b = true) (hbc : leByText key rest b c = true) :
    leByText key rest a c = true := by
  rw [leByText_iff] at hab hbc ⊢
  rcases hab with hab | ⟨hab, hrest⟩ <;> rcases hbc with hbc | ⟨hbc, hrest'⟩
  · exact .inl (String.lt_trans hab hbc)
  · exact .inl (hbc ▸ hab)
  · exact .inl (hab ▸ hbc)
  · exact .inr ⟨hab.trans hbc, h a b c hrest hrest'⟩

theorem leByText_total (h : ∀ a b, (rest a b || rest b a) = true) (a b : α) :
    (leByText key rest a b || leByText key rest b a) = true := by
  by_cases hkey : key a = key b
  · simpa [leByText, hkey] using h a b
  · simpa [leByText, hkey, Ne.symm hkey] using Text.le_total (key a) (key b)

theorem leByText_antisymm (hab : leByText key rest a b = true)
    (hba : leByText key rest b a = true) :
    key a = key b ∧ rest a b = true ∧ rest b a = true := by
  rw [leByText_iff] at hab hba
  rcases hab with hab | ⟨hab, hrest⟩ <;> rcases hba with hba | ⟨hba, hrest'⟩
  · exact absurd hab (String.lt_asymm hba)
  · exact absurd hab (hba ▸ String.lt_irrefl _)
  · exact absurd hba (hab ▸ String.lt_irrefl _)
  · exact ⟨hab, hrest, hrest'⟩

end ByText

namespace Tag

/-- Names come first, then files, both in the order of their bytes, and lines last. -/
def Precedes (a b : Tag) : Prop :=
  Text.bytesOf a.name.toList < Text.bytesOf b.name.toList ∨
    a.name = b.name ∧ (Text.bytesOf a.file.toList < Text.bytesOf b.file.toList ∨
      a.file = b.file ∧ a.line ≤ b.line)

theorem le_eq : le = leByText name (leByText file fun a b => decide (a.line ≤ b.line)) := rfl

theorem le_trans (a b c : Tag) (hab : le a b = true) (hbc : le b c = true) : le a c = true := by
  rw [le_eq] at hab hbc ⊢
  refine leByText_trans (leByText_trans ?_) a b c hab hbc
  intro a b c hab hbc
  exact decide_eq_true (Nat.le_trans (of_decide_eq_true hab) (of_decide_eq_true hbc))

theorem le_total (a b : Tag) : (le a b || le b a) = true := by
  rw [le_eq]
  exact leByText_total (leByText_total fun a b => by simpa using Nat.le_total a.line b.line) a b

theorem le_refl (a : Tag) : le a a = true := by simpa using le_total a a

theorem le_iff_precedes {a b : Tag} : le a b = true ↔ a.Precedes b := by
  rw [le_eq, leByText_iff, leByText_iff, Precedes, Text.bytesOf_lt_iff, Text.bytesOf_lt_iff,
    decide_eq_true_iff]
  rfl

/-- Only tags with the same name, file and line do not come one before the other. -/
theorem le_and_le_iff {a b : Tag} : (le a b && le b a) = true ↔
    b.name = a.name ∧ b.file = a.file ∧ b.line = a.line := by
  rw [Bool.and_eq_true]
  constructor
  · rintro ⟨hab, hba⟩
    rw [le_eq] at hab hba
    obtain ⟨hname, hab, hba⟩ := leByText_antisymm hab hba
    obtain ⟨hfile, hab, hba⟩ := leByText_antisymm hab hba
    exact ⟨hname.symm, hfile.symm,
      Nat.le_antisymm (of_decide_eq_true hba) (of_decide_eq_true hab)⟩
  · rintro ⟨hname, hfile, hline⟩
    simp [le, hname, hfile, hline]

end Tag

/-! ## The order of symbols -/

theorem symbolLe_trans (a b c : FileScan × Symbol) (hab : symbolLe a b = true)
    (hbc : symbolLe b c = true) : symbolLe a c = true := Tag.le_trans _ _ _ hab hbc

theorem symbolLe_total (a b : FileScan × Symbol) : (symbolLe a b || symbolLe b a) = true :=
  Tag.le_total _ _

/-- Whether a symbol has a name on a line. -/
def Symbol.standsAt (name : String) (line : Nat) (x : Symbol) : Bool :=
  x.name = name && x.span.line = line

/-- Whether a symbol has a name on a line of a file that is shown under a path. -/
def standsAt (path name : String) (line : Nat) (e : FileScan × Symbol) : Bool :=
  e.1.shownPath = path && e.2.standsAt name line

/-- What is equal in the order stands at one place. -/
theorem symbolLe_and_symbolLe (a b : FileScan × Symbol) :
    (symbolLe a b && symbolLe b a) = standsAt a.1.shownPath a.2.name a.2.span.line b := by
  rw [Bool.eq_iff_iff, symbolLe, symbolLe, Tag.le_and_le_iff]
  simp [standsAt, Symbol.standsAt, tagOf, and_left_comm]

theorem filter_sortedSymbols (path name : String) (line : Nat) (scans : List FileScan) :
    (sortedSymbols scans).filter (standsAt path name line) =
      (filedSymbols scans).filter (standsAt path name line) := by
  refine filter_mergeSort symbolLe_trans symbolLe_total (fun a b ha hb => ?_) _
  simp only [standsAt, Symbol.standsAt, Bool.and_eq_true, decide_eq_true_iff] at ha hb
  have hboth : (symbolLe a b && symbolLe b a) = true := by
    rw [symbolLe_and_symbolLe]
    simp [standsAt, Symbol.standsAt, ha, hb]
  exact (Bool.and_eq_true_iff.mp hboth).1

theorem filter_filedSymbols (path name : String) (line : Nat) (scans : List FileScan) :
    (filedSymbols scans).filter (standsAt path name line) =
      (scans.filter fun f => f.shownPath = path).flatMap fun f =>
        (f.result.symbols.filter (Symbol.standsAt name line)).map fun x => (f, x) := by
  induction scans with
  | nil => rfl
  | cons f scans ih =>
      rw [filedSymbols, List.flatMap_cons, List.filter_append, ← filedSymbols, ih,
        List.filter_map]
      by_cases hpath : f.shownPath = path
      · rw [List.filter_cons_of_pos (by simpa using hpath), List.flatMap_cons]
        simp [Function.comp_def, standsAt, hpath]
      · rw [List.filter_cons_of_neg (by simpa using hpath)]
        simp [Function.comp_def, standsAt, hpath]

/-- No two scans are shown under the same path. -/
def ShownApart (scans : List FileScan) : Prop :=
  scans.Pairwise fun f g => f.shownPath ≠ g.shownPath

/-- At most one of the scans is shown under a path. -/
theorem ShownApart.filter_eq {scans : List FileScan} (h : ShownApart scans) (path : String) :
    (scans.filter fun f => f.shownPath = path) = [] ∨
      ∃ f, (scans.filter fun f => f.shownPath = path) = [f] := by
  match hfilter : scans.filter fun f => f.shownPath = path with
  | [] => exact .inl hfilter
  | [f] => exact .inr ⟨f, hfilter⟩
  | f :: g :: rest =>
    have hpath : ∀ f ∈ scans.filter fun f => f.shownPath = path, f.shownPath = path :=
      fun f hf => of_decide_eq_true (List.mem_filter.mp hf).2
    have hapart := List.Pairwise.filter (fun f => f.shownPath = path) h
    rw [hfilter] at hpath hapart
    have hne := (List.pairwise_cons.mp hapart).1 g List.mem_cons_self
    exact absurd ((hpath f (by simp)).trans (hpath g (by simp)).symm) hne

theorem ShownApart.filter_of_mem {scans : List FileScan} (h : ShownApart scans) {f : FileScan}
    (hf : f ∈ scans) : (scans.filter fun g => g.shownPath = f.shownPath) = [f] := by
  have hmem : f ∈ scans.filter fun g => g.shownPath = f.shownPath :=
    List.mem_filter.mpr ⟨hf, by simp⟩
  rcases h.filter_eq f.shownPath with hnil | ⟨g, hg⟩
  · rw [hnil] at hmem
    cases hmem
  · rw [hg] at hmem ⊢
    rw [List.mem_singleton.mp hmem]

theorem ShownApart.filter_of_perm {scans others : List FileScan} (h : ShownApart scans)
    (hperm : others.Perm scans) (path : String) :
    (others.filter fun f => f.shownPath = path) = scans.filter fun f => f.shownPath = path := by
  have hperm := hperm.filter fun f => f.shownPath = path
  rcases h.filter_eq path with hnil | ⟨f, hf⟩
  · rw [hnil] at hperm ⊢
    exact hperm.eq_nil
  · rw [hf] at hperm ⊢
    exact List.perm_singleton.mp hperm

/-- **The order of the files makes no difference.** -/
theorem sortedSymbols_of_perm {scans others : List FileScan} (h : ShownApart scans)
    (hperm : others.Perm scans) : sortedSymbols others = sortedSymbols scans := by
  refine eq_of_filter_eq (fun a => Tag.le_refl _)
    (List.pairwise_mergeSort symbolLe_trans symbolLe_total _)
    (List.pairwise_mergeSort symbolLe_trans symbolLe_total _) fun a => ?_
  simp only [symbolLe_and_symbolLe]
  rw [filter_sortedSymbols, filter_sortedSymbols, filter_filedSymbols, filter_filedSymbols,
    h.filter_of_perm hperm]

/-! ## The first fields of the lines -/

/-- What stands in a line before its first tab. -/
def firstField (line : List Char) : List Char := line.takeWhile (· ≠ '\t')

theorem firstField_row {f : FileScan} {x : Symbol} (hx : x.InWords) :
    firstField (Tag.row (f, x)) = x.name.toList := by
  have hname : ∀ c ∈ x.name.toList, decide (c ≠ '\t') = true := by
    intro c hc
    refine decide_eq_true fun heq => ?_
    exact hx.name.not_mem (by decide : Lexeme.isWordChar '\t' = false) (heq ▸ hc)
  obtain ⟨rest, hrow⟩ : ∃ rest, Tag.row (f, x) = x.name.toList ++ '\t' :: rest := by
    rw [Tag.row, FileScan.tagFields, List.cons_append, List.cons_append, List.map_cons,
      List.map_cons, List.intercalate_cons_cons, List.append_assoc]
    exact ⟨_, rfl⟩
  rw [firstField, hrow, List.takeWhile_append_of_pos hname, List.takeWhile_cons_of_neg (by simp),
    List.append_nil]

/-- A word begins behind `!` in the order of characters. -/
theorem lt_of_isWordChar {c : Char} (h : Lexeme.isWordChar c = true) : '!' < c := by
  have hbelow : ∀ n < 34, Lexeme.isWordChar (Char.ofNat n) = false := by decide
  refine Char.not_le.mp fun hle => ?_
  have hc := hbelow c.toNat (Nat.lt_succ_of_le hle)
  rw [Char.ofNat_toNat, h] at hc
  cases hc

theorem IsWord.bytesLe_of_mark {name : String} (h : IsWord name) (rest : List Char) :
    Text.BytesLe ('!' :: rest) name.toList := by
  obtain ⟨c, cs, hname⟩ :=
    List.exists_cons_of_ne_nil (String.toList_eq_nil_iff.not.mpr h.ne_empty)
  have hc : '!' < c := lt_of_isWordChar (h.chars c (hname ▸ List.mem_cons_self))
  rw [hname]
  exact List.lt_asymm (Text.bytesOf_lt (List.cons_lt_cons_iff.mpr (.inl hc)))

/-- The lines of a tags file without their ends. -/
def tagRows (scans : List FileScan) : List (List Char) :=
  tagsHeader.map (·.toList.dropLast) ++ (sortedSymbols scans).map Tag.row

/-- The lines of the header have no line feed inside of them and begin with `!`. -/
theorem header_row : ∀ row ∈ tagsHeader.map (·.toList.dropLast),
    '\n' ∉ row ∧ (firstField row).head? = some '!' := by decide +kernel

/-- **The first fields of all lines are in order**, if the symbols are made of words. -/
theorem firstFields_sorted {scans : List FileScan}
    (hwords : ∀ e ∈ filedSymbols scans, e.2.InWords) :
    (tagRows scans).Pairwise fun a b => Text.BytesLe (firstField a) (firstField b) := by
  have hwords : ∀ e ∈ sortedSymbols scans, e.2.InWords := fun e he =>
    hwords e ((List.mergeSort_perm _ _).subset he)
  refine List.pairwise_append.mpr ⟨?header, ?symbols, ?across⟩
  case header =>
    unfold Text.BytesLe
    decide +kernel
  case symbols =>
    have hsorted : (sortedSymbols scans).Pairwise fun a b => symbolLe a b = true :=
      List.pairwise_mergeSort symbolLe_trans symbolLe_total _
    refine List.pairwise_map.mpr (hsorted.imp_of_mem fun {a b} ha hb hab => ?_)
    rw [firstField_row (hwords a ha), firstField_row (hwords b hb)]
    rcases Tag.le_iff_precedes.mp hab with hlt | ⟨heq, -⟩
    · exact List.lt_asymm hlt
    · exact (congrArg String.toList heq) ▸ List.lt_irrefl _
  case across =>
    intro line hline row hrow
    obtain ⟨e, he, rfl⟩ := List.mem_map.mp hrow
    obtain ⟨rest, hfield⟩ := List.head?_eq_some_iff.mp (header_row line hline).2
    rw [firstField_row (hwords e he), hfield]
    exact (hwords e he).name.bytesLe_of_mark rest

theorem scan_mem_of_filedSymbols {scans : List FileScan} {e : FileScan × Symbol}
    (h : e ∈ filedSymbols scans) : e.1 ∈ scans := by
  obtain ⟨f, hf, hmem⟩ := List.mem_flatMap.mp h
  obtain ⟨x, -, rfl⟩ := List.mem_map.mp hmem
  exact hf

/-- Lines are read back, if the symbols are made of words and no path holds a line feed. -/
theorem splitOn_tagsText {scans : List FileScan}
    (hwords : ∀ e ∈ filedSymbols scans, e.2.InWords)
    (hpaths : ∀ f ∈ scans, '\n' ∉ f.shownPath.toList) :
    Text.splitOn '\n' (tagsText scans).toList = tagRows scans ++ [[]] := by
  have hrows : ∀ row ∈ tagRows scans, '\n' ∉ row := by
    intro row hrow
    rcases List.mem_append.mp hrow with hrow | hrow
    · exact (header_row row hrow).1
    · obtain ⟨e, he, rfl⟩ := List.mem_map.mp hrow
      have he := (List.mergeSort_perm _ _).subset he
      have hpath : '\n' ∉ e.1.path.toList := fun hmem =>
        hpaths e.1 (scan_mem_of_filedSymbols he) (Text.mem_replaceChar (by decide) hmem)
      exact Text.not_mem_intercalate (by decide)
        (Tag.not_mem_tagFields (hwords e he) (by decide) hpath)
  have hsplit := Text.splitOn_rows hrows []
  rw [List.append_nil] at hsplit
  rw [toList_tagsText (sortedTags_eq scans)]
  exact hsplit

/-- **A tags file is sorted, and does not depend on the order of the files.** Let the scans be shown
under different paths. Behind the lines of the header there is one line for each symbol, in the
order of names, paths and lines. Where these are the same the lines have the order that the symbols
have in their file. The scans in another order give the same text. If a survey has given the scans
and no line feed is in a path, then the first fields of all lines, those of the header included, are
in the order of their bytes. -/
theorem tags_sorted (scans : List FileScan) :
    (ShownApart scans →
      (∃ entries : List (FileScan × Symbol),
        entries.Perm (filedSymbols scans) ∧
        tagsText scans = String.join (tagsHeader ++ entries.map fun e => (tagOf e).text) ∧
        (entries.Pairwise fun a b => (tagOf a).Precedes (tagOf b)) ∧
        ∀ f ∈ scans, ∀ name line,
          (entries.filter (standsAt f.shownPath name line)).map (·.2) =
            f.result.symbols.filter (Symbol.standsAt name line)) ∧
      ∀ others, others.Perm scans → tagsText others = tagsText scans) ∧
    ∀ (s : Survey) (r : Registry) (d : Disk) (cwd : Location) (files : List String),
      s.run r d cwd files = .ok scans → (∀ f ∈ scans, '\n' ∉ f.shownPath.toList) →
      ∃ lines, Text.splitOn '\n' (tagsText scans).toList = lines ++ [[]] ∧
        lines.Pairwise fun a b => Text.BytesLe (firstField a) (firstField b) := by
  refine ⟨fun hapart =>
    ⟨⟨sortedSymbols scans, List.mergeSort_perm _ _, ?text, ?sorted, ?stable⟩, ?permuted⟩, ?fields⟩
  case text =>
    rw [tagsText, sortedTags_eq, List.map_map]
    rfl
  case sorted =>
    exact (List.pairwise_mergeSort symbolLe_trans symbolLe_total _).imp Tag.le_iff_precedes.mp
  case stable =>
    intro f hf name line
    rw [filter_sortedSymbols, filter_filedSymbols, hapart.filter_of_mem hf, List.flatMap_singleton,
      List.map_map]
    exact List.map_id _
  case permuted =>
    intro others hperm
    rw [tagsText, tagsText, sortedTags_eq, sortedTags_eq, sortedSymbols_of_perm hapart hperm]
  case fields =>
    intro s r d cwd files hrun hpaths
    have hwords : ∀ e ∈ filedSymbols scans, e.2.InWords := by
      intro e he
      obtain ⟨f, hf, hmem⟩ := List.mem_flatMap.mp he
      obtain ⟨x, hx, rfl⟩ := List.mem_map.mp hmem
      obtain ⟨g, source, hresult⟩ := Survey.result_of_run hrun hf
      exact scan_inWords (hresult ▸ hx)
    exact ⟨tagRows scans, splitOn_tagsText hwords hpaths, firstFields_sorted hwords⟩

/-- The tags file of two files with the same class, and that of one of them. -/
theorem tags_sorted_of_two :
    let source := "class A \x7b void f() \x7b \x7d void f() \x7b \x7d \x7d".toList
    let a : FileScan := ⟨"a.java", "java", scan (.ofProfile .java) source⟩
    let b : FileScan := ⟨"b.java", "java", scan (.ofProfile .java) source⟩
    tagsText [a, b] = tagsText [b, a] ∧
      ({ base := "" } : Survey).run javaOnly (.ofText "a.java" source) [] ["a.java"] = .ok [a] ∧
      ∃ lines, Text.splitOn '\n' (tagsText [a]).toList = lines ++ [[]] ∧
        lines.Pairwise fun a b => Text.BytesLe (firstField a) (firstField b) := by
  intro source a b
  have hrun : ({ base := "" } : Survey).run javaOnly (.ofText "a.java" source) [] ["a.java"] =
      .ok [a] :=
    run_of_java (by decide +kernel) (by decide +kernel) (by decide +kernel) (by decide +kernel)
      (by decide) (toOption_eq_some_iff.mp (by decide +kernel))
  have hapart : ShownApart [b, a] := List.pairwise_pair.mpr (by decide +kernel)
  have hpath : ∀ f ∈ [a], '\n' ∉ f.shownPath.toList := by
    intro f hf
    rw [List.mem_singleton.mp hf]
    decide +kernel
  refine ⟨((tags_sorted [b, a]).1 hapart).2 [a, b] (List.Perm.swap b a []), hrun, ?_⟩
  exact (tags_sorted [a]).2 _ _ _ _ _ hrun hpath

end DeclTags
