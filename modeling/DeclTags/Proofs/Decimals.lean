import Mathlib.Data.Nat.Digits.Defs

set_option autoImplicit false

/-! # Decimal digits

A count is written with its decimal digits, and every reader of counts goes along them from the
first to the last. So the digits are looked at in that direction: a number of one digit, or the
digits of a number that is not zero and one more (`toDigits_induction`).
-/

namespace DeclTags.Decimals

theorem toList_toString (n : Nat) : (toString n).toList = Nat.toDigits 10 n := by
  rw [Nat.toString_eq_repr, Nat.repr_eq_ofList_toDigits, String.toList_ofList]

/-- What holds of the numbers with one digit, and of a number with one more digit behind its own,
holds of all of them. -/
theorem toDigits_induction {P : Nat → List Char → Prop}
    (one : ∀ d, d < 10 → P d [d.digitChar])
    (more : ∀ n d, 0 < n → d < 10 → P n (Nat.toDigits 10 n) →
      P (n * 10 + d) (Nat.toDigits 10 n ++ [d.digitChar])) (n : Nat) :
    P n (Nat.toDigits 10 n) := by
  induction n using Nat.strongRecOn with
  | ind n ih =>
      by_cases hn : n < 10
      · rw [Nat.toDigits_of_lt_base hn]
        exact one n hn
      · have hsplit : n / 10 * 10 + n % 10 = n := by omega
        have h := more (n / 10) (n % 10) (by omega) (Nat.mod_lt _ (by omega))
          (ih (n / 10) (by omega))
        rwa [hsplit, ← Nat.toDigits_of_base_le (by omega) (by omega)] at h

theorem digitChar_isDigit {d : Nat} (h : d < 10) : d.digitChar.isDigit = true := by
  have key : ∀ d < 10, (Nat.digitChar d).isDigit = true := by decide
  exact key d h

theorem isDigit_of_mem (n : Nat) : ∀ c ∈ Nat.toDigits 10 n, c.isDigit = true := by
  induction n using toDigits_induction with
  | one d hd =>
      intro c hc
      rw [List.mem_singleton.mp hc]
      exact digitChar_isDigit hd
  | more n d _ hd ih =>
      intro c hc
      rcases List.mem_append.mp hc with hc | hc
      · exact ih c hc
      · rw [List.mem_singleton.mp hc]
        exact digitChar_isDigit hd

/-- Only zero begins with a zero. -/
theorem eq_zero_of_head? (n : Nat) : (Nat.toDigits 10 n).head? = some '0' → n = 0 := by
  induction n using toDigits_induction with
  | one d hd =>
      intro h
      have hchar := congrArg Char.toNat (Option.some.inj h)
      rw [Nat.toNat_digitChar_of_lt_ten hd] at hchar
      simpa using hchar
  | more n d hn _ ih =>
      intro h
      rw [List.head?_append, Option.or_of_isSome (by simp [Nat.toDigits_ne_nil])] at h
      have := ih h
      omega

end DeclTags.Decimals
