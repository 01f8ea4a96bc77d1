import YieldLadder.Foundation.Numeral

/-! # Integers as text

`toString` of a `BigInt` writes the sign and the digits, and `BigInt` reads them back: what
a program stores or sends as text is the number it had.
-/
namespace Foundation.EcmaScript

def decimal (n : ℕ) : List ℕ := (Nat.toDigits 10 n).map Char.toNat

/-- `x.toString()` of a `BigInt`. -/
def bigIntToString : ℤ → List ℕ
  | .ofNat n => decimal n
  | .negSucc n => 0x2D :: decimal (n + 1)

theorem digitChar_toNat {d : ℕ} (hd : d < 10) : d.digitChar.toNat = 0x30 + d := by
  have hall : ∀ d < 10, d.digitChar.toNat = 0x30 + d := by decide
  exact hall d hd

theorem decimal_last (n : ℕ) :
    decimal n = (if 10 ≤ n then decimal (n / 10) else []) ++ [0x30 + n % 10] := by
  have hlast := digitChar_toNat (Nat.mod_lt n (by decide : 0 < 10))
  by_cases hn : 10 ≤ n
  · rw [if_pos hn, decimal, Nat.toDigits_of_base_le (by decide) hn, List.map_append, List.map_singleton, hlast]
    rfl
  · rw [if_neg hn, decimal, Nat.toDigits_of_lt_base (not_le.mp hn), List.map_singleton, List.nil_append, ← hlast,
      Nat.mod_eq_of_lt (not_le.mp hn)]

theorem digitValue_digit {d : ℕ} (hd : d < 10) : digitValue (0x30 + d) = d := by
  unfold digitValue
  rw [if_pos (by omega)]
  omega

theorem decimal_digits (n : ℕ) : ∀ unit ∈ decimal n, digitValue unit < 10 := by
  induction n using Nat.strong_induction_on with
  | _ n ih =>
    have hlast : n % 10 < 10 := Nat.mod_lt n (by decide)
    intro unit hunit
    rw [decimal_last, List.mem_append, List.mem_singleton] at hunit
    rcases hunit with hunit | rfl
    · split at hunit
      · next hge => exact ih (n / 10) (by omega) unit hunit
      · cases hunit
    · rw [digitValue_digit hlast]
      exact hlast

theorem isNumeral_decimal (n : ℕ) : IsNumeral 10 (decimal n) := by
  refine ⟨?_, decimal_digits n⟩
  rw [decimal_last]
  exact List.append_ne_nil_of_right_ne_nil _ (List.cons_ne_nil _ _)

theorem numeral_decimal (n : ℕ) : numeral 10 (decimal n) = n := by
  induction n using Nat.strong_induction_on with
  | _ n ih =>
    have hlast : numeral 10 [0x30 + n % 10] = n % 10 := by
      rw [numeral, List.map_singleton, digitValue_digit (Nat.mod_lt n (by decide))]
      exact Nat.ofDigits_singleton
    rw [decimal_last, numeral_append, hlast]
    split
    · next hge =>
      rw [ih (n / 10) (by omega), List.length_singleton, pow_one]
      omega
    · next hlt =>
      rw [Nat.mod_eq_of_lt (not_le.mp hlt)]
      simp [numeral]

theorem bigInt_negative {digits : List ℕ} (h : IsNumeral 10 digits) :
    bigInt (0x2D :: digits) = some (-(numeral 10 digits : ℤ)) := by
  have hplain := h.plain (by decide)
  have htrim : trim (0x2D :: digits) = 0x2D :: digits := by
    apply trim_self
    · intro unit hunit
      obtain rfl : 0x2D = unit := Option.some.inj hunit
      rfl
    · intro unit hunit
      rcases List.mem_cons.mp (List.mem_of_getLast? hunit) with rfl | hmem
      · rfl
      · exact hplain unit hmem
  have hparse : parseNumeral 10 digits = some (numeral 10 digits) := parseNumeral_eq_some.mpr ⟨h, rfl⟩
  unfold bigInt
  rw [htrim]
  simp [radix, hparse]

theorem bigInt_bigIntToString (x : ℤ) : bigInt (bigIntToString x) = some x := by
  cases x with
  | ofNat n =>
    rw [bigIntToString, bigInt_numeral (isNumeral_decimal n), numeral_decimal]
    rfl
  | negSucc n =>
    rw [bigIntToString, bigInt_negative (isNumeral_decimal (n + 1)), numeral_decimal]
    rfl

theorem bigIntToString_injective : Function.Injective bigIntToString := by
  intro x y h
  have hread := congrArg bigInt h
  rw [bigInt_bigIntToString, bigInt_bigIntToString] at hread
  exact Option.some.inj hread

end Foundation.EcmaScript
