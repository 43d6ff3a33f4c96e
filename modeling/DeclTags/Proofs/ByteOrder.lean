import DeclTags.Text.Bytes
import DeclTags.Text.Layout

set_option autoImplicit false

/-! # Texts in the order of their bytes

Texts are ordered by code points, and their bytes put them in the same order (`bytesOf_lt_iff`). For
the bytes of a character spell its code point in base 64, the highest digit first (`Spells`). The
first byte also tells how many there are, and the more there are the greater it is.
-/

namespace DeclTags.Text

/-- The bytes spell the digits of a code point in base 64. -/
inductive Spells : List UInt8 → Nat → Prop
  | one {n : Nat} (hn : n < 0x80) : Spells [.ofNat n] n
  | two {n i j : Nat} (hn : n = i * 0x40 + j) (hleast : 2 ≤ i) (hi : i < 0x20) (hj : j < 0x40) :
      Spells [.ofNat (i + 0xC0), .ofNat (j + 0x80)] n
  | three {n i j k : Nat} (hn : n = (i * 0x40 + j) * 0x40 + k) (hleast : 0x20 ≤ i * 0x40 + j)
      (hi : i < 0x10) (hj : j < 0x40) (hk : k < 0x40) :
      Spells [.ofNat (i + 0xE0), .ofNat (j + 0x80), .ofNat (k + 0x80)] n
  | four {n i j k l : Nat} (hn : n = ((i * 0x40 + j) * 0x40 + k) * 0x40 + l)
      (hleast : 0x10 ≤ i * 0x40 + j) (hi : i < 8) (hj : j < 0x40) (hk : k < 0x40)
      (hl : l < 0x40) :
      Spells [.ofNat (i + 0xF0), .ofNat (j + 0x80), .ofNat (k + 0x80), .ofNat (l + 0x80)] n

theorem spells_utf8EncodeChar (c : Char) : Spells (String.utf8EncodeChar c) c.toNat := by
  have hvalid : c.toNat < 0x110000 := by
    rcases c.valid with h | h
    · exact Nat.lt_trans h (by decide)
    · exact h.2
  have hsecond : c.toNat / 0x40 / 0x40 = c.toNat / 0x1000 := Nat.div_div_eq_div_mul _ _ _
  have hthird : c.toNat / 0x1000 / 0x40 = c.toNat / 0x40000 := Nat.div_div_eq_div_mul _ _ _
  rw [String.utf8EncodeChar, show c.val.toNat = c.toNat from rfl]
  split
  · exact .one (by omega)
  split
  · exact .two (by omega) (by omega) (by omega) (by omega)
  split
  · exact .three (by omega) (by omega) (by omega) (by omega) (by omega)
  · exact .four (by omega) (by omega) (by omega) (by omega) (by omega) (by omega)

/-- Bytes that spell a smaller code point come first, whatever follows. -/
theorem Spells.append_lt {as bs : List UInt8} {m n : Nat} (ha : Spells as m) (hb : Spells bs n)
    (h : m < n) (cs ds : List UInt8) : as ++ cs < bs ++ ds := by
  cases ha <;> cases hb <;>
    simp only [List.cons_append, List.nil_append, List.cons_lt_cons_iff, UInt8.lt_iff_toNat_lt,
      ← UInt8.toNat_inj, UInt8.toNat_ofNat'] <;> omega

/-- The bytes of the smaller text come first. -/
theorem bytesOf_lt {as bs : List Char} (h : as < bs) : bytesOf as < bytesOf bs := by
  induction as generalizing bs with
  | nil =>
      cases bs with
      | nil => exact absurd h (List.lt_irrefl [])
      | cons b bs =>
        obtain ⟨byte, bytes, hbytes⟩ :=
          List.exists_cons_of_ne_nil (@String.utf8EncodeChar_ne_nil b)
        rw [bytesOf, bytesOf, List.flatMap_nil, List.flatMap_cons, hbytes]
        exact List.nil_lt_cons _ _
  | cons a as ih =>
      cases bs with
      | nil => exact absurd h (List.not_lt_nil _)
      | cons b bs =>
        rw [bytesOf, bytesOf, List.flatMap_cons, List.flatMap_cons]
        -- the first characters decide, and where they are the same their bytes are, too
        rcases List.cons_lt_cons_iff.mp h with hlt | ⟨rfl, hlt⟩
        · exact (spells_utf8EncodeChar a).append_lt (spells_utf8EncodeChar b) hlt _ _
        · exact List.append_left_lt (ih hlt)

/-- **The bytes of texts are ordered as the texts are.** -/
theorem bytesOf_lt_iff {as bs : List Char} : bytesOf as < bytesOf bs ↔ as < bs := by
  constructor
  · intro h
    rcases List.le_iff_lt_or_eq.mp (List.not_lt.mp fun hgt => List.lt_asymm h (bytesOf_lt hgt))
      with hlt | rfl
    · exact hlt
    · exact absurd h (List.lt_irrefl _)
  · exact bytesOf_lt

/-- The bytes of the first text come before those of the second, or are the same. -/
def BytesLe (as bs : List Char) : Prop := ¬bytesOf bs < bytesOf as

/-- Of different texts one comes before the other. -/
theorem le_iff_lt_of_ne {a b : String} (h : a ≠ b) : le a b = true ↔ a < b := by
  rw [le, decide_eq_true_iff]
  exact ⟨fun hle => String.not_le.mp fun hge => h (String.le_antisymm hle hge),
    fun hlt => String.not_lt.mp (String.lt_asymm hlt)⟩

end DeclTags.Text
