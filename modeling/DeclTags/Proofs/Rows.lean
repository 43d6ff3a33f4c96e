import DeclTags.Text.Layout
import Mathlib.Algebra.GroupWithZero.Nat

set_option autoImplicit false

/-! # Rows of a text

A report is a list of rows, each ended by a line feed, and the fields of a row may be separated by
another character. Cut at such a character, a text gives back its rows and fields if the character
is in none of them (`splitOn_rows`, `splitOn_intercalate`); a character that ends rows stands in the
text once for each of them and once more wherever it is in a row (`count_rows`).
-/

namespace DeclTags.Text

variable {separator : Char} {piece : List Char} {pieces rows : List (List Char)}

/-- Cutting a text is cutting the list of its characters. -/
theorem splitOn_eq (separator : Char) (cs : List Char) :
    splitOn separator cs = cs.splitOn separator := by
  induction cs with
  | nil => rw [splitOn, List.splitOn_nil]
  | cons c cs ih =>
      rw [splitOn, List.splitOn_cons_eq_if_modifyHead, ih]
      by_cases hc : c = separator
      · rw [if_pos hc, if_pos (beq_iff_eq.mpr hc)]
      · rw [if_neg hc, if_neg fun h => hc (beq_iff_eq.mp h)]
        obtain ⟨piece, pieces, h⟩ := List.exists_cons_of_ne_nil (List.splitOn_ne_nil separator cs)
        rw [h]
        rfl

theorem splitOn_append (h : separator ∉ piece) (rest : List Char) :
    splitOn separator (piece ++ separator :: rest) = piece :: splitOn separator rest := by
  rw [splitOn_eq, splitOn_eq]
  exact List.splitOn_append_cons_self_of_not_mem h rest

/-- What is written between separators is read back. -/
theorem splitOn_intercalate (hne : pieces ≠ []) (h : ∀ piece ∈ pieces, separator ∉ piece) :
    splitOn separator ([separator].intercalate pieces) = pieces := by
  rw [splitOn_eq]
  exact List.splitOn_intercalate separator h hne

/-- What is in joined pieces, and not between two of them, is in one of them. -/
theorem mem_intercalate {c : Char} {between : List Char} (hc : c ∉ between) :
    c ∈ between.intercalate pieces ↔ ∃ piece ∈ pieces, c ∈ piece := by
  induction pieces with
  | nil => simp
  | cons piece pieces ih =>
      cases pieces with
      | nil => simp
      | cons other pieces =>
          rw [List.intercalate_cons_cons, List.append_assoc, List.mem_append, List.mem_append, ih]
          simp [hc]

theorem not_mem_intercalate {c : Char} {between : List Char} (hc : c ∉ between)
    (h : ∀ piece ∈ pieces, c ∉ piece) : c ∉ between.intercalate pieces := by
  rw [mem_intercalate hc]
  rintro ⟨piece, hpiece, hmem⟩
  exact h piece hpiece hmem

/-- Rows are read back with what stands behind them. -/
theorem splitOn_rows (h : ∀ row ∈ rows, separator ∉ row) (rest : List Char) :
    splitOn separator (rows.flatMap (· ++ [separator]) ++ rest) =
      rows ++ splitOn separator rest := by
  induction rows with
  | nil => rfl
  | cons row rows ih =>
      have hrow : separator ∉ row := h row List.mem_cons_self
      have hrows := ih fun other hother => h other (List.mem_cons_of_mem _ hother)
      rw [List.flatMap_cons, List.append_assoc, List.append_assoc, List.singleton_append,
        splitOn_append hrow, hrows, List.cons_append]

theorem count_rows (separator : Char) (rows : List (List Char)) :
    (rows.flatMap (· ++ [separator])).count separator =
      rows.length + (rows.map (·.count separator)).sum := by
  induction rows with
  | nil => rfl
  | cons row rows ih =>
      rw [List.flatMap_cons, List.count_append, List.count_append, List.count_singleton_self, ih,
        List.length_cons, List.map_cons, List.sum_cons]
      omega

/-- There are as many ends of rows as rows just if the character that ends them is in no row. -/
theorem count_rows_eq_length_iff :
    (rows.flatMap (· ++ [separator])).count separator = rows.length ↔
      ∀ row ∈ rows, separator ∉ row := by
  rw [count_rows, Nat.add_eq_left, List.sum_eq_zero_iff_forall_eq_nat]
  constructor
  · intro h row hrow
    exact List.count_eq_zero.mp (h _ (List.mem_map_of_mem hrow))
  · intro h n hn
    obtain ⟨row, hrow, rfl⟩ := List.mem_map.mp hn
    exact List.count_eq_zero.mpr (h row hrow)

/-- Putting a character in place of another keeps all others. -/
theorem mem_replaceChar {old new c : Char} {s : String} (hc : c ≠ old) (h : c ∈ s.toList) :
    c ∈ (replaceChar old new s).toList := by
  rw [replaceChar, String.toList_ofList, List.mem_map]
  exact ⟨c, h, if_neg hc⟩

/-- Putting a character in place of another adds no third one. -/
theorem not_mem_replaceChar {old new c : Char} {s : String} (hc : c ≠ new) (h : c ∉ s.toList) :
    c ∉ (replaceChar old new s).toList := by
  rw [replaceChar, String.toList_ofList, List.mem_map]
  rintro ⟨d, hd, hdc⟩
  split at hdc
  · exact hc hdc.symm
  · exact h (hdc ▸ hd)

end DeclTags.Text
