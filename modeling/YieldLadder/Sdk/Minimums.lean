import YieldLadder.Router.Minimums
import YieldLadder.Sdk.Amounts

/-! # The minimum of the SDK and those of the contracts

The SDK compares the parsed amount with a table of its own before it builds a
transaction. For three tiers it is the router's table and the vault's check; for Flex it
asks ten times as much.
-/
namespace YieldLadder.Sdk
open Foundation Foundation.EcmaScript

/-- The variant of the contracts' enumeration that the symbol stands for. -/
def tierToScVal : Tier → YieldLadder.Tier
  | .flex => .flex
  | .l3 => .l3
  | .l6 => .l6
  | .l12 => .l12

/-- White space in a fraction that the padding fills up, so that it ends up between digits. -/
def Gapped (amount : List ℕ) : Prop :=
  ((amount.splitOn 0x2E)[1]?.getD []).length < USDC_DECIMALS ∧
    ∃ unit ∈ (amount.splitOn 0x2E)[1]?.getD [], isWhiteSpace unit = true

/-- On this amount the SDK rejects what the router rejects, and on every amount the router what the vault does. -/
structure LayersAgree (D : Deployment) (rule : TokenRule) (env : Env) (w : World) (user asset : Address)
    (amount : List ℕ) (tier : Tier) : Prop where
  sdk : deposit amount tier = .error (some .belowMinDeposit) ↔ ∃ x, toStroops amount = some x ∧
    VaultRouter.deposit rule D.router env w user (tierToScVal tier) asset x =
      .error VaultRouter.Error.belowMinDeposit.fault
  contracts : ∀ x v, w.vaults (D.vault (tierToScVal tier)) = some v →
    (VaultRouter.deposit rule D.router env w user (tierToScVal tier) asset x =
        .error VaultRouter.Error.belowMinDeposit.fault ↔
      v.step (env.calledBy D.router) (.deposit user asset x) = .error v.belowMinimum)

variable {amount before digits further after : List ℕ} {value : ℚ} {tier : Tier} {x : ℤ}

theorem deposit_eq_belowMinDeposit : deposit amount tier = .error (some .belowMinDeposit) ↔
    ∃ x, toStroops amount = some x ∧ x < TIER_MIN_DEPOSIT tier := by
  unfold deposit
  cases toStroops amount with
  | none => exact iff_of_false (by rintro ⟨⟩) (by simp)
  | some x =>
    dsimp only
    split
    · next hlt => exact iff_of_true rfl ⟨x, rfl, hlt⟩
    · next hge =>
      refine iff_of_false (by rintro ⟨⟩) ?_
      rintro ⟨y, hy, hlt⟩
      obtain rfl := Option.some.inj hy
      exact hge hlt

theorem TIER_MIN_DEPOSIT_eq (htier : tier ≠ .flex) :
    TIER_MIN_DEPOSIT tier = VaultRouter.minDeposit (tierToScVal tier) := by
  cases tier with
  | flex => exact absurd rfl htier
  | l3 => rfl
  | l6 => rfl
  | l12 => rfl

theorem floor_lt_units (value : ℚ) (n : ℤ) :
    ⌊value * 10 ^ USDC_DECIMALS⌋ < n * STROOPS_PER_UNIT ↔ value < n := by
  rw [Int.floor_lt, STROOPS_PER_UNIT]
  push_cast
  exact mul_lt_mul_iff_of_pos_right (by positivity)

theorem digits_lt_units (whole : ℕ) {frac places : ℕ} (hfrac : frac < 10 ^ places)
    (hplaces : places < USDC_DECIMALS) (n : ℤ) :
    whole * STROOPS_PER_UNIT + frac < n * STROOPS_PER_UNIT ↔ (whole : ℚ) + frac / 10 ^ places < n := by
  have hunit : (frac : ℤ) < STROOPS_PER_UNIT := by
    have hpow : 10 ^ places ≤ 10 ^ USDC_DECIMALS := Nat.pow_le_pow_right (by decide) hplaces.le
    rw [STROOPS_PER_UNIT]
    exact_mod_cast hfrac.trans_le hpow
  have hfloor : ⌊(frac : ℚ) / 10 ^ places⌋ = 0 := by
    rw [Int.floor_eq_zero_iff]
    refine ⟨by positivity, (div_lt_one (by positivity)).mpr ?_⟩
    exact_mod_cast hfrac
  rw [← Int.floor_lt, Int.floor_natCast_add, hfloor]
  unfold STROOPS_PER_UNIT USDC_DECIMALS at *
  omega

theorem gapped_fraction (hbefore : ∀ unit ∈ before, isWhiteSpace unit = true) (hdigits : IsNumeral 10 digits)
    (hfurther : IsNumeral 10 further) (hafter : ∀ unit ∈ after, isWhiteSpace unit = true) :
    Gapped (before ++ digits ++ 0x2E :: (further ++ after)) ↔
      further.length + after.length < USDC_DECIMALS ∧ after ≠ [] := by
  rw [Gapped, splitOn_fraction hbefore hdigits hfurther hafter, ← List.length_append]
  refine and_congr_right fun _ => ⟨?_, fun hne => ?_⟩
  · rintro ⟨unit, hunit, hspace⟩ hnil
    rw [hnil, List.append_nil] at hunit
    cases hspace.symm.trans (hfurther.plain (by decide) unit hunit)
  · obtain ⟨space, hspace⟩ := List.exists_mem_of_ne_nil after hne
    exact ⟨space, List.mem_append_right _ hspace, hafter space hspace⟩

theorem PlainNumeral.gapped_or_parsed (h : PlainNumeral amount value) : Gapped amount ∧ toStroops amount = none ∨
    ¬Gapped amount ∧ ∃ x, toStroops amount = some x ∧ ∀ n : ℤ, x < n * STROOPS_PER_UNIT ↔ value < n := by
  cases h with
  | whole before digits after hbefore hdigits hafter =>
    refine .inr ⟨?_, _, (toStroops_whole hbefore hdigits hafter).1, floor_lt_units _⟩
    rw [Gapped, splitOn_whole hbefore hdigits hafter]
    simp
  | fraction before digits further after hbefore hdigits hfurther hafter =>
    rw [gapped_fraction hbefore hdigits hfurther hafter]
    rcases Nat.lt_or_ge further.length USDC_DECIMALS with hshort | hlong
    · by_cases hnil : after = []
      · refine .inr ⟨fun hgap => hgap.2 hnil, _, ?_, floor_lt_units _⟩
        exact (toStroops_of_short hbefore hdigits hfurther hafter hshort.le hnil).1
      · rcases Nat.lt_or_ge (further.length + after.length) USDC_DECIMALS with hgap | hcut
        · exact .inl ⟨⟨hgap, hnil⟩, toStroops_of_gap hbefore hdigits hfurther hafter hgap hnil⟩
        · refine .inr ⟨fun hgap => Nat.not_lt.mpr hcut hgap.1, _, ?_,
            digits_lt_units _ (numeral_lt (by decide) hfurther.2) hshort⟩
          exact (toStroops_of_swallowed hbefore hdigits hfurther hafter hshort hcut).1
    · refine .inr ⟨fun hgap => ?_, _, ?_, floor_lt_units _⟩
      · have hlength := hgap.1
        omega
      · exact (toStroops_of_long hbefore hdigits hfurther hafter hlong).1

section Layers
variable {D : Deployment} {rule : TokenRule} {env : Env} {w : World} {user asset : Address}

/-- Whatever the text, the layers agree unless the amount parsed lies between the two minimums of Flex. -/
theorem layersAgree_iff_parsed (hw : D.Wired w) (hopen : VaultRouter.Open w env user asset) :
    LayersAgree D rule env w user asset amount tier ↔ tier ≠ .flex ∨
      ∀ x, toStroops amount = some x → x < VaultRouter.minDeposit .flex ∨ TIER_MIN_DEPOSIT .flex ≤ x := by
  have hrouter : ∀ x, VaultRouter.deposit rule D.router env w user (tierToScVal tier) asset x =
      .error VaultRouter.Error.belowMinDeposit.fault ↔ x < VaultRouter.minDeposit (tierToScVal tier) :=
    fun x => Deployment.deposit_eq_belowMinDeposit hw hopen
  constructor
  · rintro ⟨hsdk, _⟩
    rw [deposit_eq_belowMinDeposit] at hsdk
    rw [or_iff_not_imp_left, not_not]
    rintro rfl x hparsed
    by_contra hbetween
    rw [not_or, not_lt, not_le] at hbetween
    obtain ⟨y, hy, hreject⟩ := hsdk.mp ⟨x, hparsed, hbetween.2⟩
    obtain rfl := Option.some.inj (hparsed.symm.trans hy)
    exact Int.not_lt.mpr hbetween.1 ((hrouter x).mp hreject)
  · intro htables
    constructor
    · rw [deposit_eq_belowMinDeposit]
      refine exists_congr fun x => and_congr_right fun hparsed => ?_
      rw [hrouter]
      by_cases htier : tier = .flex
      · subst htier
        rcases htables.resolve_left (not_not.mpr rfl) x hparsed with hbelow | habove
        · exact iff_of_true (hbelow.trans (by decide)) hbelow
        · have hsmaller : VaultRouter.minDeposit (tierToScVal .flex) ≤ TIER_MIN_DEPOSIT .flex := by decide
          exact iff_of_false (Int.not_lt.mpr habove) (Int.not_lt.mpr (hsmaller.trans habove))
      · rw [TIER_MIN_DEPOSIT_eq htier]
    · intro x v hv
      obtain ⟨t, ht, htier⟩ := hw.only _ v hv
      have hmin : VaultRouter.minDeposit (tierToScVal tier) = v.minDeposit :=
        Deployment.vault_inj.mp ht ▸ htier ▸ v.minDeposit_tier
      rw [hrouter, TierVault.deposit_eq_belowMinimum (hw.adminAuthorized hv env), hmin]

/-- Where the router takes deposits, SDK, router and vault reject the same amounts, but for Flex amounts of at least
1 and less than 10. -/
theorem layersAgree_iff (hw : D.Wired w) (hopen : VaultRouter.Open w env user asset)
    (h : PlainNumeral amount value) : LayersAgree D rule env w user asset amount tier ↔
      tier ≠ .flex ∨ Gapped amount ∨ value < 1 ∨ 10 ≤ value := by
  rw [layersAgree_iff_parsed hw hopen]
  refine or_congr_right ?_
  rcases h.gapped_or_parsed with ⟨hgapped, hnone⟩ | ⟨hnot, x, hparsed, hunits⟩
  · rw [hnone]
    exact iff_of_true (by simp) (.inl hgapped)
  · have hone : x < VaultRouter.minDeposit .flex ↔ value < 1 := by exact_mod_cast hunits 1
    have hten : x < TIER_MIN_DEPOSIT .flex ↔ value < 10 := by exact_mod_cast hunits 10
    rw [or_iff_right hnot, ← hone, ← not_lt (a := value), ← hten, not_lt]
    constructor
    · exact fun hall => hall x hparsed
    · rintro hx y hy
      obtain rfl := Option.some.inj (hparsed.symm.trans hy)
      exact hx

open Deployment (harness harnessWorld usdc harness_fresh)

theorem harness_open : VaultRouter.Open harnessWorld ⟨[7], none, 1⟩ (.account 7) usdc where
  running := by decide
  signed := by decide
  allowed := by decide

/-- `99.5` is too little for L6 in every layer. -/
theorem layersAgree_l6 : PlainNumeral [0x39, 0x39, 0x2E, 0x35] (99 + 5 / 10) ∧
    LayersAgree harness .host ⟨[7], none, 1⟩ harnessWorld (.account 7) usdc [0x39, 0x39, 0x2E, 0x35] .l6 := by
  have hplain : PlainNumeral [0x39, 0x39, 0x2E, 0x35] (99 + 5 / 10) :=
    .fraction [] [0x39, 0x39] [0x35] [] nofun (by decide) (by decide) nofun
  exact ⟨hplain, (layersAgree_iff harness_fresh.wired harness_open hplain).mpr (.inl (by decide))⟩

/-- The SDK refuses 5 USDC for Flex, which the router and VaultFlex take. -/
theorem five_refused : PlainNumeral [0x35] 5 ∧ toStroops [0x35] = some 50_000_000 ∧
    deposit [0x35] .flex = .error (some .belowMinDeposit) ∧
    (∃ r, VaultRouter.deposit TokenRule.host harness.router ⟨[7], none, 1⟩ harnessWorld (.account 7)
      (tierToScVal .flex) usdc 50_000_000 = .ok r) ∧
    (∃ v r, harnessWorld.vaults (harness.vault .flex) = some v ∧
      v.step (Env.calledBy ⟨[7], none, 1⟩ harness.router) (.deposit (.account 7) usdc 50_000_000) = .ok r) ∧
    ¬LayersAgree harness .host ⟨[7], none, 1⟩ harnessWorld (.account 7) usdc [0x35] .flex := by
  have hparsed : toStroops [0x35] = some 50_000_000 := by decide
  refine ⟨.whole [] [0x35] [] nofun (by decide) nofun, hparsed, by decide, ⟨_, rfl⟩, ⟨_, _, rfl, rfl⟩, ?_⟩
  intro hagree
  have htables := (layersAgree_iff_parsed harness_fresh.wired harness_open).mp hagree
  have houtside := htables.resolve_left (by decide) _ hparsed
  exact absurd houtside (by decide)

end Layers

end YieldLadder.Sdk
