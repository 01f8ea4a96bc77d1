import Mathlib.Data.Rat.Floor
import YieldLadder.Foundation.Numeral
import YieldLadder.Sdk.Errors

/-! # Amounts from text

An amount is split at its dots, the fraction padded and cut to seven characters, and
both parts given to `BigInt`. What `BigInt` reads is more than digits, and it reads the
two parts apart from each other.
-/
namespace YieldLadder.Sdk
open Foundation.EcmaScript

inductive Tier
  | flex
  | l3
  | l6
  | l12
  deriving DecidableEq, Repr

def USDC_DECIMALS : ℕ := 7
def STROOPS_PER_UNIT : ℤ := 10 ^ USDC_DECIMALS

def TIER_MIN_DEPOSIT : Tier → ℤ
  | .flex => 10 * STROOPS_PER_UNIT
  | .l3 => 50 * STROOPS_PER_UNIT
  | .l6 => 100 * STROOPS_PER_UNIT
  | .l12 => 250 * STROOPS_PER_UNIT

def wholePart (amount : List ℕ) : List ℕ := (amount.splitOn 0x2E).headD [0x30]

/-- What comes between the first dot and the second, padded and cut. -/
def fracPadded (amount : List ℕ) : List ℕ :=
  (padEnd ((amount.splitOn 0x2E)[1]?.getD []) USDC_DECIMALS 0x30).take USDC_DECIMALS

def toStroops (amount : List ℕ) : Option ℤ := do
  let whole ← bigInt (wholePart amount)
  let frac ← bigInt (if (fracPadded amount).length > 0 then fracPadded amount else [0x30])
  pure (whole * STROOPS_PER_UNIT + frac)

/-- The stroops that `deposit` has the pipeline invoke the router with; `none` is the `SyntaxError`. -/
def deposit (amount : List ℕ) (tier : Tier) : Except (Option YieldLadderError) ℤ := do
  match toStroops amount with
  | none => throw none
  | some stroops =>
    if stroops < TIER_MIN_DEPOSIT tier then throw (some .belowMinDeposit)
    pure stroops

/-- Digits, maybe a dot and further digits, with white space around them: a decimal numeral and its value. -/
inductive PlainNumeral : List ℕ → ℚ → Prop
  | whole (before digits after : List ℕ) (hbefore : ∀ unit ∈ before, isWhiteSpace unit = true)
      (hdigits : IsNumeral 10 digits) (hafter : ∀ unit ∈ after, isWhiteSpace unit = true) :
      PlainNumeral (before ++ digits ++ after) (numeral 10 digits)
  | fraction (before digits further after : List ℕ) (hbefore : ∀ unit ∈ before, isWhiteSpace unit = true)
      (hdigits : IsNumeral 10 digits) (hfurther : IsNumeral 10 further)
      (hafter : ∀ unit ∈ after, isWhiteSpace unit = true) :
      PlainNumeral (before ++ digits ++ 0x2E :: (further ++ after))
        (numeral 10 digits + numeral 10 further / 10 ^ further.length)

/-- The amount is refused, or it is a numeral and the result is its value in stroops, rounded down. -/
def Faithful (amount : List ℕ) : Prop :=
  toStroops amount = none ∨
    ∃ value, PlainNumeral amount value ∧ toStroops amount = some ⌊value * 10 ^ USDC_DECIMALS⌋

/-- The padded fraction has no white space in it, or nothing else but zeros. -/
def Unspaced (frac : List ℕ) : Prop :=
  (∀ unit ∈ frac, isWhiteSpace unit = false) ∨ ∀ unit ∈ frac, unit = 0x30 ∨ isWhiteSpace unit = true

instance (frac : List ℕ) : Decidable (Unspaced frac) := inferInstanceAs (Decidable (_ ∨ _))

variable {amount before digits further after : List ℕ} {value : ℚ} {w f : ℤ}

theorem fracPadded_length (amount : List ℕ) : (fracPadded amount).length = USDC_DECIMALS := by
  simp only [fracPadded, padEnd, List.length_take, List.length_append, List.length_replicate]
  omega

theorem toStroops_eq (amount : List ℕ) : toStroops amount = (bigInt (wholePart amount)).bind fun whole =>
    (bigInt (fracPadded amount)).map fun frac => whole * STROOPS_PER_UNIT + frac := by
  have hlength : (fracPadded amount).length > 0 := by
    rw [fracPadded_length]
    decide
  unfold toStroops
  rw [if_pos hlength]
  cases bigInt (wholePart amount) <;> cases bigInt (fracPadded amount) <;> rfl

theorem toStroops_eq_none : toStroops amount = none ↔
    bigInt (wholePart amount) = none ∨ bigInt (fracPadded amount) = none := by
  rw [toStroops_eq]
  cases bigInt (wholePart amount) <;> cases bigInt (fracPadded amount) <;> simp

theorem toStroops_of_some (hw : bigInt (wholePart amount) = some w) (hf : bigInt (fracPadded amount) = some f) :
    toStroops amount = some (w * STROOPS_PER_UNIT + f) := by
  rw [toStroops_eq, hw, hf]
  rfl

theorem dot_not_mem_numeral {s : List ℕ} (hs : IsNumeral 10 s) : 0x2E ∉ s := fun hmem =>
  absurd (hs.2 0x2E hmem) (by decide)

theorem dot_not_mem_space {s : List ℕ} (hs : ∀ unit ∈ s, isWhiteSpace unit = true) : 0x2E ∉ s := fun hmem =>
  absurd (hs 0x2E hmem) (by decide)

theorem splitOn_whole (hbefore : ∀ unit ∈ before, isWhiteSpace unit = true) (hdigits : IsNumeral 10 digits)
    (hafter : ∀ unit ∈ after, isWhiteSpace unit = true) :
    (before ++ digits ++ after).splitOn 0x2E = [before ++ digits ++ after] := by
  apply List.splitOn_eq_singleton
  simp only [List.mem_append, not_or]
  exact ⟨⟨dot_not_mem_space hbefore, dot_not_mem_numeral hdigits⟩, dot_not_mem_space hafter⟩

theorem splitOn_fraction (hbefore : ∀ unit ∈ before, isWhiteSpace unit = true) (hdigits : IsNumeral 10 digits)
    (hfurther : IsNumeral 10 further) (hafter : ∀ unit ∈ after, isWhiteSpace unit = true) :
    (before ++ digits ++ 0x2E :: (further ++ after)).splitOn 0x2E = [before ++ digits, further ++ after] := by
  have hleft : 0x2E ∉ before ++ digits := by
    rw [List.mem_append, not_or]
    exact ⟨dot_not_mem_space hbefore, dot_not_mem_numeral hdigits⟩
  have hright : 0x2E ∉ further ++ after := by
    rw [List.mem_append, not_or]
    exact ⟨dot_not_mem_numeral hfurther, dot_not_mem_space hafter⟩
  rw [List.splitOn_append_cons_self, List.splitOn_eq_singleton hleft, List.splitOn_eq_singleton hright]
  rfl

theorem floor_value (whole frac places : ℕ) :
    ⌊((whole : ℚ) + frac / 10 ^ places) * 10 ^ USDC_DECIMALS⌋ =
      whole * STROOPS_PER_UNIT + (frac * 10 ^ USDC_DECIMALS / 10 ^ places : ℕ) := by
  have hsplit : ((whole : ℚ) + frac / 10 ^ places) * 10 ^ USDC_DECIMALS =
      ((whole * 10 ^ USDC_DECIMALS : ℕ) : ℚ) +
        ((frac * 10 ^ USDC_DECIMALS : ℕ) : ℚ) / ((10 ^ places : ℕ) : ℚ) := by
    push_cast
    ring
  rw [hsplit, Int.floor_natCast_add, Rat.floor_natCast_div_natCast]
  unfold STROOPS_PER_UNIT
  push_cast
  rfl

/-- A numeral without a fraction is read as it stands. -/
theorem toStroops_whole (hbefore : ∀ unit ∈ before, isWhiteSpace unit = true) (hdigits : IsNumeral 10 digits)
    (hafter : ∀ unit ∈ after, isWhiteSpace unit = true) :
    toStroops (before ++ digits ++ after) = some ⌊(numeral 10 digits : ℚ) * 10 ^ USDC_DECIMALS⌋ ∧
      fracPadded (before ++ digits ++ after) = List.replicate USDC_DECIMALS 0x30 := by
  have hsplit := splitOn_whole hbefore hdigits hafter
  have hwhole : wholePart (before ++ digits ++ after) = before ++ digits ++ after := by
    rw [wholePart, hsplit]
    rfl
  have hfrac : fracPadded (before ++ digits ++ after) = List.replicate USDC_DECIMALS 0x30 := by
    rw [fracPadded, hsplit]
    rfl
  refine ⟨?_, hfrac⟩
  have hzeros : bigInt (fracPadded (before ++ digits ++ after)) = some 0 := by
    rw [hfrac]
    rfl
  rw [toStroops_of_some (hwhole.symm ▸ bigInt_decimal hbefore hdigits hafter) hzeros]
  have hfloor := floor_value (numeral 10 digits) 0 0
  simpa using hfloor.symm

section Fraction
variable (hbefore : ∀ unit ∈ before, isWhiteSpace unit = true) (hdigits : IsNumeral 10 digits)
variable (hfurther : IsNumeral 10 further) (hafter : ∀ unit ∈ after, isWhiteSpace unit = true)
include hbefore hdigits hfurther hafter

theorem bigInt_wholePart :
    bigInt (wholePart (before ++ digits ++ 0x2E :: (further ++ after))) = some (numeral 10 digits : ℤ) := by
  have hwhole : wholePart (before ++ digits ++ 0x2E :: (further ++ after)) = before ++ digits ++ [] := by
    rw [wholePart, splitOn_fraction hbefore hdigits hfurther hafter, List.append_nil]
    rfl
  rw [hwhole]
  exact bigInt_decimal hbefore hdigits nofun

theorem fracPadded_fraction : fracPadded (before ++ digits ++ 0x2E :: (further ++ after)) =
    (further ++ (after ++ List.replicate (USDC_DECIMALS - (further.length + after.length)) 0x30)).take
      USDC_DECIMALS := by
  rw [fracPadded, splitOn_fraction hbefore hdigits hfurther hafter, ← List.append_assoc, ← List.length_append]
  rfl

/-- Enough digits: what is cut off is less than a stroop. -/
theorem toStroops_of_long (hlong : USDC_DECIMALS ≤ further.length) :
    toStroops (before ++ digits ++ 0x2E :: (further ++ after)) =
        some ⌊((numeral 10 digits : ℚ) + numeral 10 further / 10 ^ further.length) * 10 ^ USDC_DECIMALS⌋ ∧
      Unspaced (fracPadded (before ++ digits ++ 0x2E :: (further ++ after))) := by
  have hfrac : fracPadded (before ++ digits ++ 0x2E :: (further ++ after)) = further.take USDC_DECIMALS := by
    rw [fracPadded_fraction hbefore hdigits hfurther hafter, List.take_append_of_le_length hlong]
  have hnumeral : IsNumeral 10 (further.take USDC_DECIMALS) := by
    refine ⟨fun hnil => ?_, fun unit hunit => hfurther.2 unit (List.mem_of_mem_take hunit)⟩
    rcases List.take_eq_nil_iff.mp hnil with h | h
    · cases h
    · exact hfurther.1 h
  have hread : bigInt (fracPadded (before ++ digits ++ 0x2E :: (further ++ after))) =
      some (numeral 10 (further.take USDC_DECIMALS) : ℤ) := by
    rw [hfrac]
    exact bigInt_numeral hnumeral
  refine ⟨?_, .inl (hfrac.symm ▸ hnumeral.plain (by decide))⟩
  rw [toStroops_of_some (bigInt_wholePart hbefore hdigits hfurther hafter) hread, floor_value,
    numeral_scaled_of_le (by decide) hfurther.2 hlong]

/-- Few digits and nothing after them: zeros fill up. -/
theorem toStroops_of_short (hshort : further.length ≤ USDC_DECIMALS) (hnil : after = []) :
    toStroops (before ++ digits ++ 0x2E :: (further ++ after)) =
        some ⌊((numeral 10 digits : ℚ) + numeral 10 further / 10 ^ further.length) * 10 ^ USDC_DECIMALS⌋ ∧
      Unspaced (fracPadded (before ++ digits ++ 0x2E :: (further ++ after))) := by
  have hfrac : fracPadded (before ++ digits ++ 0x2E :: (further ++ after)) =
      further ++ List.replicate (USDC_DECIMALS - further.length) 0x30 := by
    rw [fracPadded_fraction hbefore hdigits hfurther hafter, hnil, List.nil_append]
    apply List.take_of_length_le
    simp only [List.length_append, List.length_replicate, List.length_nil]
    omega
  have hnumeral : IsNumeral 10 (further ++ List.replicate (USDC_DECIMALS - further.length) 0x30) := by
    refine ⟨fun h => hfurther.1 (List.append_eq_nil_iff.mp h).1, fun unit hunit => ?_⟩
    rcases List.mem_append.mp hunit with hunit | hunit
    · exact hfurther.2 unit hunit
    · rw [List.eq_of_mem_replicate hunit]
      decide
  have hvalue : numeral 10 (further ++ List.replicate (USDC_DECIMALS - further.length) 0x30) =
      numeral 10 further * 10 ^ (USDC_DECIMALS - further.length) := by
    rw [numeral_append, numeral_replicate_zero, List.length_replicate, Nat.add_zero]
  have hread : bigInt (fracPadded (before ++ digits ++ 0x2E :: (further ++ after))) =
      some ((numeral 10 further * 10 ^ (USDC_DECIMALS - further.length) : ℕ) : ℤ) := by
    rw [hfrac, bigInt_numeral hnumeral, hvalue]
  refine ⟨?_, .inl (hfrac.symm ▸ hnumeral.plain (by decide))⟩
  rw [toStroops_of_some (bigInt_wholePart hbefore hdigits hfurther hafter) hread, floor_value,
    numeral_scaled_of_ge (by decide) hshort]

/-- White space after few digits that the padding does not reach across: it stands between digits, which `BigInt`
refuses. -/
theorem toStroops_of_gap (hgap : further.length + after.length < USDC_DECIMALS) (hne : after ≠ []) :
    toStroops (before ++ digits ++ 0x2E :: (further ++ after)) = none := by
  obtain ⟨space, hspace⟩ := List.exists_mem_of_ne_nil after hne
  obtain ⟨zeros, hzeros⟩ := Nat.exists_eq_succ_of_ne_zero (Nat.sub_ne_zero_of_lt hgap)
  have hfrac : fracPadded (before ++ digits ++ 0x2E :: (further ++ after)) =
      further ++ (after ++ List.replicate zeros 0x30) ++ [0x30] := by
    rw [fracPadded_fraction hbefore hdigits hfurther hafter, hzeros, List.replicate_succ']
    rw [List.take_of_length_le]
    · simp only [List.append_assoc]
    · simp only [List.length_append, List.length_replicate, List.length_singleton]
      omega
  have htrim : trim (fracPadded (before ++ digits ++ 0x2E :: (further ++ after))) =
      further ++ (after ++ List.replicate zeros 0x30) ++ [0x30] := by
    rw [hfrac]
    apply trim_self
    · intro unit hunit
      obtain ⟨first, rest, rfl⟩ := List.exists_cons_of_ne_nil hfurther.1
      cases hunit
      exact hfurther.plain (by decide) unit List.mem_cons_self
    · intro unit hunit
      rw [List.getLast?_concat] at hunit
      cases hunit
      rfl
  refine toStroops_eq_none.mpr (.inr (bigInt_eq_none ⟨space, ?_, hafter space hspace⟩))
  rw [htrim]
  simp [hspace]

/-- White space after few digits that is cut off at the seventh character: the digits are read as they stand, not as
so many places of a fraction. -/
theorem toStroops_of_swallowed (hshort : further.length < USDC_DECIMALS)
    (hlong : USDC_DECIMALS ≤ further.length + after.length) :
    toStroops (before ++ digits ++ 0x2E :: (further ++ after)) =
        some (numeral 10 digits * STROOPS_PER_UNIT + numeral 10 further) ∧
      (Unspaced (fracPadded (before ++ digits ++ 0x2E :: (further ++ after))) ↔ numeral 10 further = 0) := by
  have hspaces : ∀ unit ∈ after.take (USDC_DECIMALS - further.length), isWhiteSpace unit = true :=
    fun unit hunit => hafter unit (List.mem_of_mem_take hunit)
  have hfrac : fracPadded (before ++ digits ++ 0x2E :: (further ++ after)) =
      further ++ after.take (USDC_DECIMALS - further.length) := by
    rw [fracPadded_fraction hbefore hdigits hfurther hafter, List.take_append,
      List.take_of_length_le (Nat.le_of_lt hshort), List.take_append_of_le_length (by omega)]
  have hread : bigInt (fracPadded (before ++ digits ++ 0x2E :: (further ++ after))) =
      some (numeral 10 further : ℤ) := by
    have hdecimal : bigInt ([] ++ further ++ after.take (USDC_DECIMALS - further.length)) = _ :=
      bigInt_decimal nofun hfurther hspaces
    rw [hfrac]
    exact hdecimal
  have hcut : after.take (USDC_DECIMALS - further.length) ≠ [] := by
    apply List.ne_nil_of_length_pos
    rw [List.length_take]
    omega
  refine ⟨toStroops_of_some (bigInt_wholePart hbefore hdigits hfurther hafter) hread, ?_⟩
  rw [hfrac, numeral_eq_zero (by decide)]
  constructor
  · rintro (hno | hzeros) unit hunit
    · obtain ⟨space, hspace⟩ := List.exists_mem_of_ne_nil _ hcut
      cases (hspaces space hspace).symm.trans (hno space (List.mem_append_right _ hspace))
    · rcases hzeros unit (List.mem_append_left _ hunit) with rfl | hspace
      · rfl
      · cases hspace.symm.trans (hfurther.plain (by decide) unit hunit)
  · intro hzeros
    refine .inr fun unit hunit => ?_
    rcases List.mem_append.mp hunit with hunit | hunit
    · exact .inl (digitValue_eq_zero.mp (hzeros unit hunit))
    · exact .inr (hspaces unit hunit)

end Fraction

/-- A plain numeral is refused, or it is read as its value exactly when its padded fraction is unspaced. -/
theorem PlainNumeral.parsed (h : PlainNumeral amount value) : toStroops amount = none ∨
    (toStroops amount = some ⌊value * 10 ^ USDC_DECIMALS⌋ ↔ Unspaced (fracPadded amount)) := by
  cases h with
  | whole before digits after hbefore hdigits hafter =>
    obtain ⟨hresult, hfrac⟩ := toStroops_whole hbefore hdigits hafter
    refine .inr (iff_of_true hresult (.inl fun unit hunit => ?_))
    rw [hfrac] at hunit
    rw [List.eq_of_mem_replicate hunit]
    rfl
  | fraction before digits further after hbefore hdigits hfurther hafter =>
    rcases Nat.lt_or_ge further.length USDC_DECIMALS with hshort | hlong
    · by_cases hnil : after = []
      · have hresult := toStroops_of_short hbefore hdigits hfurther hafter (Nat.le_of_lt hshort) hnil
        exact .inr (iff_of_true hresult.1 hresult.2)
      · rcases Nat.lt_or_ge (further.length + after.length) USDC_DECIMALS with hgap | hcut
        · exact .inl (toStroops_of_gap hbefore hdigits hfurther hafter hgap hnil)
        · obtain ⟨hresult, hunspaced⟩ :=
            toStroops_of_swallowed hbefore hdigits hfurther hafter hshort hcut
          refine .inr ?_
          rw [hunspaced, hresult, floor_value, numeral_scaled_of_ge (by decide) (Nat.le_of_lt hshort)]
          have hpow : 1 < 10 ^ (USDC_DECIMALS - further.length) :=
            Nat.one_lt_pow (Nat.sub_ne_zero_of_lt hshort) (by decide)
          rw [Option.some.injEq, add_right_inj, Nat.cast_inj]
          constructor
          · intro hsame
            by_contra hne
            exact Nat.ne_of_gt hpow ((Nat.mul_eq_left hne).mp hsame.symm)
          · intro hzero
            rw [hzero, Nat.zero_mul]
    · have hresult := toStroops_of_long hbefore hdigits hfurther hafter hlong
      exact .inr (iff_of_true hresult.1 hresult.2)

theorem PlainNumeral.dots (h : PlainNumeral amount value) : (amount.splitOn 0x2E).length ≤ 2 := by
  cases h with
  | whole before digits after hbefore hdigits hafter =>
    rw [splitOn_whole hbefore hdigits hafter]
    exact Nat.le_succ 1
  | fraction before digits further after hbefore hdigits hfurther hafter =>
    rw [splitOn_fraction hbefore hdigits hfurther hafter]
    exact Nat.le_refl 2

/-- An amount is parsed faithfully exactly when one of its parts is nothing that `BigInt` reads, or it is a plain
numeral with an unspaced fraction. -/
theorem faithful_iff (amount : List ℕ) : Faithful amount ↔
    bigInt (wholePart amount) = none ∨ bigInt (fracPadded amount) = none ∨
      (∃ value, PlainNumeral amount value) ∧ Unspaced (fracPadded amount) := by
  rw [← or_assoc, ← toStroops_eq_none]
  unfold Faithful
  refine or_congr_right' fun hsome => ?_
  constructor
  · rintro ⟨value, hplain, hresult⟩
    exact ⟨⟨value, hplain⟩, (hplain.parsed.resolve_left hsome).mp hresult⟩
  · rintro ⟨⟨value, hplain⟩, hunspaced⟩
    exact ⟨value, hplain, (hplain.parsed.resolve_left hsome).mpr hunspaced⟩

section Malformed

def twoDots : List ℕ := [0x31, 0x30, 0x30, 0x2E, 0x35, 0x2E, 0x37]

def padded : List ℕ := [0x31, 0x30, 0x30, 0x30, 0x2E, 0x35, 0x20, 0x20, 0x20, 0x20, 0x20, 0x20]

/-- Two dots make an amount of `100.5`, and spaces after `1000.5` cut its fraction to five stroops. -/
theorem malformed_deposited : deposit twoDots .flex = .ok 1_005_000_000 ∧ ¬Faithful twoDots ∧
    (∃ value, PlainNumeral padded value) ∧ deposit padded .flex = .ok 10_000_000_005 ∧ ¬Faithful padded := by
  have htwoDots : toStroops twoDots = some 1_005_000_000 := by decide
  have hpadded : toStroops padded = some 10_000_000_005 := by decide
  refine ⟨by decide, ?_, ?_, by decide, ?_⟩
  · rintro (hnone | ⟨value, hplain, _⟩)
    · cases htwoDots.symm.trans hnone
    · exact absurd hplain.dots (by decide)
  · exact ⟨_, .fraction [] [0x31, 0x30, 0x30, 0x30] [0x35] (List.replicate 6 0x20) nofun (by decide) (by decide)
      (by decide)⟩
  · rintro (hnone | ⟨value, hplain, hresult⟩)
    · cases hpadded.symm.trans hnone
    · rcases hplain.parsed with hnone | hiff
      · cases hpadded.symm.trans hnone
      · exact absurd (hiff.mp hresult) (by decide)

end Malformed

end YieldLadder.Sdk
