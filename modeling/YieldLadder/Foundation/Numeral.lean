import Mathlib.Data.List.DropRight
import Mathlib.Data.Nat.Digits.Defs
import Mathlib.Tactic.Ring
import YieldLadder.Foundation.EcmaScript

/-! # Numerals in a text

Texts are lists of code units. A numeral is a non-empty text of digits; `BigInt` reads
one with white space around it, with a sign or the prefix of a base before it, and
reads the empty text as zero.
-/
namespace Foundation.EcmaScript

/-- The value of the code unit as a digit; 36 when it is none. -/
def digitValue (unit : ℕ) : ℕ :=
  if 0x30 ≤ unit ∧ unit ≤ 0x39 then unit - 0x30
  else if 0x61 ≤ unit ∧ unit ≤ 0x7A then unit - 0x61 + 10
  else if 0x41 ≤ unit ∧ unit ≤ 0x5A then unit - 0x41 + 10
  else 36

/-- A non-empty text of digits in the base. -/
def IsNumeral (base : ℕ) (s : List ℕ) : Prop := s ≠ [] ∧ ∀ unit ∈ s, digitValue unit < base

instance (base : ℕ) (s : List ℕ) : Decidable (IsNumeral base s) := inferInstanceAs (Decidable (_ ∧ _))

def numeral (base : ℕ) (s : List ℕ) : ℕ := Nat.ofDigits base (s.map digitValue).reverse

def parseNumeral (base : ℕ) (s : List ℕ) : Option ℕ := if IsNumeral base s then some (numeral base s) else none

def trim (s : List ℕ) : List ℕ := (s.dropWhile isWhiteSpace).rdropWhile isWhiteSpace

/-- The base that a prefix stands for, and the text after the prefix. -/
def radix : List ℕ → Option (ℕ × List ℕ)
  | 0x30 :: letter :: rest =>
    if letter = 0x78 ∨ letter = 0x58 then some (16, rest)
    else if letter = 0x6F ∨ letter = 0x4F then some (8, rest)
    else if letter = 0x62 ∨ letter = 0x42 then some (2, rest)
    else none
  | _ => none

/-- `BigInt(s)`; `none` is a `SyntaxError`. -/
def bigInt (s : List ℕ) : Option ℤ :=
  match trim s with
  | [] => some 0
  | unit :: rest =>
    match radix (unit :: rest) with
    | some (base, digits) => (parseNumeral base digits).map Int.ofNat
    | none =>
      if unit = 0x2B then (parseNumeral 10 rest).map Int.ofNat
      else if unit = 0x2D then (parseNumeral 10 rest).map fun n => -Int.ofNat n
      else (parseNumeral 10 (unit :: rest)).map Int.ofNat

/-- `s.padEnd(length, unit)` -/
def padEnd (s : List ℕ) (length unit : ℕ) : List ℕ := s ++ List.replicate (length - s.length) unit

variable {base unit : ℕ} {s t before after : List ℕ}

theorem numeral_append (base : ℕ) (s t : List ℕ) :
    numeral base (s ++ t) = numeral base s * base ^ t.length + numeral base t := by
  unfold numeral
  rw [List.map_append, List.reverse_append, Nat.ofDigits_append, List.length_reverse, List.length_map]
  ring

theorem numeral_lt (hbase : 1 < base) (hs : ∀ unit ∈ s, digitValue unit < base) :
    numeral base s < base ^ s.length := by
  have hlt : numeral base s < base ^ (s.map digitValue).reverse.length := by
    refine Nat.ofDigits_lt_base_pow_length hbase fun d hd => ?_
    obtain ⟨unit, hunit, rfl⟩ := List.mem_map.mp (List.mem_reverse.mp hd)
    exact hs unit hunit
  rwa [List.length_reverse, List.length_map] at hlt

theorem numeral_eq_zero (hbase : 0 < base) : numeral base s = 0 ↔ ∀ unit ∈ s, digitValue unit = 0 := by
  induction s with
  | nil => simp [numeral]
  | cons unit s ih =>
    have hcons : numeral base (unit :: s) = digitValue unit * base ^ s.length + numeral base s := by
      rw [← List.singleton_append, numeral_append]
      simp [numeral]
    have hpow : base ^ s.length ≠ 0 := Nat.ne_of_gt (Nat.pow_pos hbase)
    rw [hcons, Nat.add_eq_zero_iff, Nat.mul_eq_zero, or_iff_left hpow, ih, List.forall_mem_cons]

theorem numeral_replicate_zero (base n : ℕ) : numeral base (List.replicate n 0x30) = 0 := by
  unfold numeral
  rw [List.map_replicate, List.reverse_replicate]
  exact Nat.ofDigits_replicate_zero

/-- As a fraction with `s.length` digits, scaled by as many places as the text has or fewer and rounded down: the
digits that are left. -/
theorem numeral_scaled_of_le (hbase : 1 < base) (hs : ∀ unit ∈ s, digitValue unit < base) {n : ℕ}
    (hn : n ≤ s.length) : numeral base s * base ^ n / base ^ s.length = numeral base (s.take n) := by
  have hpos : ∀ m, 0 < base ^ m := fun m => Nat.pow_pos (Nat.zero_lt_of_lt hbase)
  have hsplit : numeral base s =
      numeral base (s.take n) * base ^ (s.length - n) + numeral base (s.drop n) := by
    rw [← List.length_drop, ← numeral_append, List.take_append_drop]
  have hrest : numeral base (s.drop n) < base ^ (s.length - n) := by
    rw [← List.length_drop]
    exact numeral_lt hbase fun unit hunit => hs unit (List.mem_of_mem_drop hunit)
  have hlength : base ^ s.length = base ^ (s.length - n) * base ^ n := by
    rw [← Nat.pow_add, Nat.sub_add_cancel hn]
  rw [hlength, Nat.mul_div_mul_right _ _ (hpos n), hsplit, Nat.mul_comm, Nat.mul_add_div (hpos _),
    Nat.div_eq_of_lt hrest, Nat.add_zero]

theorem numeral_scaled_of_ge (hbase : 1 < base) {n : ℕ} (hn : s.length ≤ n) :
    numeral base s * base ^ n / base ^ s.length = numeral base s * base ^ (n - s.length) := by
  have hpos : 0 < base ^ s.length := Nat.pow_pos (Nat.zero_lt_of_lt hbase)
  have hlength : base ^ n = base ^ (n - s.length) * base ^ s.length := by
    rw [← Nat.pow_add, Nat.sub_add_cancel hn]
  rw [hlength, ← Nat.mul_assoc, Nat.mul_div_cancel _ hpos]

theorem digitValue_eq_zero : digitValue unit = 0 ↔ unit = 0x30 := by
  unfold digitValue
  constructor
  · intro h
    split_ifs at h
    all_goals omega
  · rintro rfl
    rfl

theorem digitValue_of_isWhiteSpace (h : isWhiteSpace unit = true) : digitValue unit = 36 := by
  simp only [isWhiteSpace, List.mem_cons, List.not_mem_nil, or_false, Bool.or_eq_true, Bool.and_eq_true,
    decide_eq_true_eq] at h
  unfold digitValue
  rw [if_neg (by omega), if_neg (by omega), if_neg (by omega)]

theorem IsNumeral.plain (hs : IsNumeral base s) (hbase : base ≤ 36) :
    ∀ unit ∈ s, isWhiteSpace unit = false := by
  intro unit hunit
  rw [Bool.eq_false_iff]
  intro hspace
  have hlt := hs.2 unit hunit
  rw [digitValue_of_isWhiteSpace hspace] at hlt
  omega

/-- White space at the ends goes, and nothing else does. -/
theorem trim_eq (hbefore : ∀ unit ∈ before, isWhiteSpace unit = true)
    (hafter : ∀ unit ∈ after, isWhiteSpace unit = true)
    (hhead : ∀ unit ∈ s.head?, isWhiteSpace unit = false)
    (hlast : ∀ unit ∈ s.getLast?, isWhiteSpace unit = false) : trim (before ++ s ++ after) = s := by
  have hright : (before ++ s ++ after).dropWhile isWhiteSpace = (s ++ after).dropWhile isWhiteSpace := by
    rw [List.append_assoc, List.dropWhile_append_of_pos hbefore]
  unfold trim
  rw [hright]
  cases s with
  | nil =>
    rw [List.nil_append, List.dropWhile_eq_nil_iff.mpr hafter]
    rfl
  | cons unit rest =>
    have hunit : isWhiteSpace unit = false := hhead unit rfl
    have hend : (unit :: rest).rdropWhile isWhiteSpace = unit :: rest := by
      rw [List.rdropWhile_eq_self_iff]
      intro hne
      rw [hlast _ (List.getLast_mem_getLast? hne)]
      exact Bool.false_ne_true
    rw [List.cons_append, List.dropWhile_cons_of_neg (by rw [hunit]; exact Bool.false_ne_true)]
    rw [← List.cons_append]
    unfold List.rdropWhile at hend ⊢
    rw [List.reverse_append, List.dropWhile_append_of_pos, hend]
    intro a ha
    exact hafter a (List.mem_reverse.mp ha)

theorem trim_self (hhead : ∀ unit ∈ s.head?, isWhiteSpace unit = false)
    (hlast : ∀ unit ∈ s.getLast?, isWhiteSpace unit = false) : trim s = s := by
  have htrim : trim ([] ++ s ++ []) = s := trim_eq nofun nofun hhead hlast
  rwa [List.nil_append, List.append_nil] at htrim

theorem parseNumeral_eq_some {n : ℕ} :
    parseNumeral base s = some n ↔ IsNumeral base s ∧ numeral base s = n := by
  unfold parseNumeral
  split_ifs with h <;> simp [h]

theorem radix_eq_some {rest : List ℕ} (h : radix s = some (base, rest)) :
    base ≤ 16 ∧ ∃ letter, s = 0x30 :: letter :: rest ∧
      10 ≤ digitValue letter ∧ isWhiteSpace letter = false := by
  unfold radix at h
  split at h
  · next letter rest' =>
    split_ifs at h with hhex hoctal hbinary
    · cases h
      refine ⟨by decide, letter, rfl, ?_⟩
      rcases hhex with rfl | rfl <;> decide
    · cases h
      refine ⟨by decide, letter, rfl, ?_⟩
      rcases hoctal with rfl | rfl <;> decide
    · cases h
      refine ⟨by decide, letter, rfl, ?_⟩
      rcases hbinary with rfl | rfl <;> decide
  · cases h

theorem bigInt_decimal (hbefore : ∀ unit ∈ before, isWhiteSpace unit = true) (hs : IsNumeral 10 s)
    (hafter : ∀ unit ∈ after, isWhiteSpace unit = true) :
    bigInt (before ++ s ++ after) = some (numeral 10 s : ℤ) := by
  have hplain := hs.plain (by decide)
  have htrim : trim (before ++ s ++ after) = s := trim_eq hbefore hafter
    (fun unit hunit => hplain unit (List.mem_of_mem_head? hunit))
    (fun unit hunit => hplain unit (List.mem_of_getLast? hunit))
  have hradix : radix s = none := by
    refine Option.eq_none_iff_forall_ne_some.mpr fun r hr => ?_
    obtain ⟨_, letter, heq, hletter, _⟩ := radix_eq_some hr
    have hdigit := hs.2 letter (by rw [heq]; simp)
    omega
  have hparse : parseNumeral 10 s = some (numeral 10 s) := parseNumeral_eq_some.mpr ⟨hs, rfl⟩
  unfold bigInt
  rw [htrim]
  cases s with
  | nil => exact absurd rfl hs.1
  | cons unit rest =>
    have hunit := hs.2 unit List.mem_cons_self
    have hplus : unit ≠ 0x2B := by
      rintro rfl
      exact absurd hunit (by decide)
    have hminus : unit ≠ 0x2D := by
      rintro rfl
      exact absurd hunit (by decide)
    dsimp only
    rw [hradix]
    dsimp only
    rw [if_neg hplus, if_neg hminus, hparse]
    rfl

theorem bigInt_numeral (hs : IsNumeral 10 s) : bigInt s = some (numeral 10 s : ℤ) := by
  have hread : bigInt ([] ++ s ++ []) = some (numeral 10 s : ℤ) := bigInt_decimal nofun hs nofun
  rwa [List.nil_append, List.append_nil] at hread

theorem bigInt_shape {n : ℤ} (h : bigInt s = some n) : trim s = [] ∨
    ∃ mark base digits, trim s = mark ++ digits ∧ base ≤ 16 ∧ IsNumeral base digits ∧
      ∀ unit ∈ mark, isWhiteSpace unit = false := by
  unfold bigInt at h
  split at h
  · next hempty => exact .inl hempty
  · next unit rest heq =>
    right
    split at h
    · next base digits hradix =>
      obtain ⟨hbase, letter, hcons, _, hletter⟩ := radix_eq_some hradix
      obtain ⟨m, hparse, _⟩ := Option.map_eq_some_iff.mp h
      refine ⟨[0x30, letter], base, digits, heq.trans hcons, hbase, (parseNumeral_eq_some.mp hparse).1, ?_⟩
      simp only [List.forall_mem_cons, List.not_mem_nil, false_implies, implies_true, and_true]
      exact ⟨by decide, hletter⟩
    · split_ifs at h with hplus hminus
      · obtain ⟨m, hparse, _⟩ := Option.map_eq_some_iff.mp h
        refine ⟨[unit], 10, rest, heq, by decide, (parseNumeral_eq_some.mp hparse).1, ?_⟩
        rw [hplus]
        decide
      · obtain ⟨m, hparse, _⟩ := Option.map_eq_some_iff.mp h
        refine ⟨[unit], 10, rest, heq, by decide, (parseNumeral_eq_some.mp hparse).1, ?_⟩
        rw [hminus]
        decide
      · obtain ⟨m, hparse, _⟩ := Option.map_eq_some_iff.mp h
        exact ⟨[], 10, unit :: rest, heq, by decide, (parseNumeral_eq_some.mp hparse).1, nofun⟩

theorem bigInt_eq_none (h : ∃ unit ∈ trim s, isWhiteSpace unit = true) : bigInt s = none := by
  obtain ⟨space, hmem, hspace⟩ := h
  refine Option.eq_none_iff_forall_ne_some.mpr fun n hn => ?_
  have hplain : isWhiteSpace space = false := by
    rcases bigInt_shape hn with hempty | ⟨mark, base, digits, heq, hbase, hdigits, hmark⟩
    · rw [hempty] at hmem
      cases hmem
    · rw [heq] at hmem
      rcases List.mem_append.mp hmem with hmem | hmem
      · exact hmark space hmem
      · exact hdigits.plain (hbase.trans (by decide)) space hmem
  cases hspace.symm.trans hplain

end Foundation.EcmaScript
