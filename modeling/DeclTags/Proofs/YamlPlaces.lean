import DeclTags.Yaml.Input
import DeclTags.Yaml.Printer

set_option autoImplicit false

/-! # Characters and places of YAML texts

What is written of a node consists of printable characters, which may stand in a document and which
`normalized` leaves as they are. Where a reader comes to behind some characters is said by
`Place.advance`: on another line if one of them is a break, and else further right by their number.
-/

namespace DeclTags.Yaml

/-! ## Characters -/

theorem isReadable_of_isPrintable {c : Char} (h : isPrintable c = true) : isReadable c = true := by
  have hvalid : c.toNat.isValidChar := c.valid
  simp only [isPrintable, isReadable, Bool.or_eq_true, Bool.and_eq_true, decide_eq_true_eq,
    Nat.isValidChar] at h hvalid ⊢
  omega

/-- What is printable is neither a carriage return nor a next-line character. -/
theorem ne_of_isPrintable {c : Char} (h : isPrintable c = true) : c ≠ '\r' ∧ c ≠ '\u0085' := by
  constructor <;>
  · rintro rfl
    exact absurd h (by decide)

theorem isGap_of_isBreak {c : Char} (h : isBreak c = true) : isGap c = true := by
  simp [isGap, h]

/-- A printable character of a gap is a space or a break. -/
theorem eq_space_of_isGap {c : Char} (hgap : isGap c = true) (hprintable : isPrintable c = true)
    (hbreak : isBreak c = false) : c = ' ' := by
  simp only [isGap, isBlank, hbreak, Bool.or_false, Bool.or_eq_true, decide_eq_true_eq] at hgap
  rcases hgap with rfl | rfl
  · rfl
  · exact absurd hprintable (by decide)

theorem normalizedOnto_of_printable {cs : List Char} (h : cs.all isPrintable = true) :
    ∀ read, normalizedOnto read cs = read.reverse ++ cs := by
  induction cs with
  | nil => intro read; simp [normalizedOnto]
  | cons c cs ih =>
    intro read
    rw [List.all_cons, Bool.and_eq_true] at h
    obtain ⟨hreturn, hnext⟩ := ne_of_isPrintable h.1
    rw [normalizedOnto.eq_5 _ _ _ (fun _ hc _ => hreturn hc) (fun hc => hreturn hc)
      (fun hc => hnext hc), ih h.2]
    simp

theorem normalized_of_printable {cs : List Char} (h : cs.all isPrintable = true) :
    normalized cs = cs := normalizedOnto_of_printable h []

/-- The text is at its end or at the begin of a key or of an item. -/
def BeginsLine (cs : List Char) : Prop := ∀ c ∈ cs.head?, c.isLower = true ∨ c = '-'

theorem beginsLine_nil : BeginsLine [] := by simp [BeginsLine]

theorem BeginsLine.ne {c d : Char} {cs : List Char} (h : BeginsLine (c :: cs))
    (hd : d.isLower = false ∧ d ≠ '-') : c ≠ d := by
  rintro rfl
  rcases h c rfl with hlower | hhyphen
  · rw [hd.1] at hlower
    cases hlower
  · exact hd.2 hhyphen

theorem BeginsLine.isBreak_eq_false {c : Char} {cs : List Char} (h : BeginsLine (c :: cs)) :
    isBreak c = false := by
  simp only [isBreak, Bool.or_eq_false_iff, decide_eq_false_iff_not]
  exact ⟨⟨h.ne (by decide), h.ne (by decide)⟩, h.ne (by decide)⟩

theorem BeginsLine.isGap_eq_false {c : Char} {cs : List Char} (h : BeginsLine (c :: cs)) :
    isGap c = false := by
  simp only [isGap, isBlank, h.isBreak_eq_false, Bool.or_false, Bool.or_eq_false_iff,
    decide_eq_false_iff_not]
  exact ⟨h.ne (by decide), h.ne (by decide)⟩

/-! ## Neighbours -/

theorem hasPair_cons (p q : Char → Bool) (c : Char) (cs : List Char) :
    hasPair p q (c :: cs) = ((p c && cs.head?.any q) || hasPair p q cs) := by
  cases cs <;> simp [hasPair]

/-! ## Places -/

namespace Place

/-- The place behind some characters. -/
def advance (p : Place) (cs : List Char) : Place := cs.foldl Place.step p

@[simp] theorem advance_nil (p : Place) : p.advance [] = p := rfl

@[simp] theorem advance_cons (p : Place) (c : Char) (cs : List Char) :
    p.advance (c :: cs) = (p.step c).advance cs := rfl

theorem advance_append (p : Place) (cs ds : List Char) :
    p.advance (cs ++ ds) = (p.advance cs).advance ds := List.foldl_append

theorem line_le_step (p : Place) (c : Char) : p.line ≤ (p.step c).line := by
  rw [step]
  split <;> simp

theorem line_le_advance (p : Place) (cs : List Char) : p.line ≤ (p.advance cs).line := by
  induction cs generalizing p with
  | nil => simp
  | cons c cs ih => exact Nat.le_trans (line_le_step p c) (ih _)

/-- Behind a break there is another line. -/
theorem line_lt_advance {p : Place} {c : Char} {cs : List Char} (hc : c ∈ cs)
    (hbreak : isBreak c = true) : p.line < (p.advance cs).line := by
  obtain ⟨before, behind, rfl⟩ := List.append_of_mem hc
  rw [advance_append, advance_cons]
  have hbefore := line_le_advance p before
  have hbehind := line_le_advance ((p.advance before).step c) behind
  have hstep : ((p.advance before).step c).line = (p.advance before).line + 1 := by
    simp [step, hbreak]
  omega

/-- Without a break the line is the same, and the column grows by the number of characters. -/
theorem advance_of_no_break {p : Place} {cs : List Char} (h : ∀ c ∈ cs, isBreak c = false) :
    (p.advance cs).line = p.line ∧ (p.advance cs).column = p.column + cs.length := by
  induction cs generalizing p with
  | nil => simp
  | cons c cs ih =>
    obtain ⟨hline, hcolumn⟩ := ih (p := p.step c) fun d hd => h d (List.mem_cons_of_mem c hd)
    have hc := h c List.mem_cons_self
    rw [advance_cons, hline, hcolumn, List.length_cons]
    simp only [step, hc, Bool.false_eq_true, if_false, true_and]
    omega

theorem offset_advance_le (p : Place) (cs : List Char) :
    (p.advance cs).offset ≤ p.offset + 4 * cs.length := by
  induction cs generalizing p with
  | nil => simp
  | cons c cs ih =>
    have hstep : (p.step c).offset = p.offset + c.utf8Size := by
      rw [step]
      split <;> rfl
    have hsize := c.utf8Size_le_four
    have := ih (p.step c)
    rw [advance_cons, List.length_cons]
    omega

theorem step_of_isBreak {p : Place} {c : Char} (h : isBreak c = true) : (p.step c).column = 0 := by
  simp [step, h]

theorem step_of_not_isBreak {p : Place} {c : Char} (h : isBreak c = false) :
    (p.step c).column = p.column + 1 := by
  simp [step, h]

end Place

/-! ## Spaces -/

namespace Scalar

@[simp] theorem spaces_zero : spaces 0 = [] := rfl

theorem spaces_succ (n : Nat) : spaces (n + 1) = ' ' :: spaces n := rfl

@[simp] theorem length_spaces (n : Nat) : (spaces n).length = n := List.length_replicate

theorem eq_of_mem_spaces {n : Nat} {c : Char} (h : c ∈ spaces n) : c = ' ' :=
  List.eq_of_mem_replicate h

theorem isBreak_of_mem_spaces {n : Nat} : ∀ c ∈ spaces n, isBreak c = false := by
  intro c hc
  rw [eq_of_mem_spaces hc]
  decide

/-- Behind `n` spaces at the begin of a line is column `n`. -/
theorem column_advance_spaces {p : Place} (n : Nat) (hp : p.column = 0) :
    (p.advance (spaces n)).column = n := by
  rw [(Place.advance_of_no_break isBreak_of_mem_spaces).2, hp, length_spaces, Nat.zero_add]

end Scalar

/-! ## Inputs -/

namespace Input

theorem skip_append (p : Place) (cs rest : List Char) :
    skip cs.length ⟨p, cs ++ rest⟩ = ⟨p.advance cs, rest⟩ := by
  induction cs generalizing p with
  | nil => simp [skip]
  | cons c cs ih => simp [skip, ih]

/-- A class is left at the first character that is not of it. -/
theorem afterClass_append {q : Char → Bool} (p : Place) (cs : List Char) {rest : List Char}
    (hcs : ∀ c ∈ cs, q c = true) (hrest : rest.head?.any q = false) :
    afterClass q p (cs ++ rest) = ⟨p.advance cs, rest⟩ := by
  induction cs generalizing p with
  | nil =>
    cases rest with
    | nil => rfl
    | cons c rest => simp_all [afterClass]
  | cons c cs ih =>
    rw [List.cons_append, afterClass, if_pos (hcs c List.mem_cons_self),
      ih (p.step c) fun d hd => hcs d (List.mem_cons_of_mem c hd), Place.advance_cons]

end Input

end DeclTags.Yaml
