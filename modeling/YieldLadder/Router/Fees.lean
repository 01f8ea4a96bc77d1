import YieldLadder.Router.Solvency

/-! # Where the exit fees go

An early exit takes its whole amount off the recorded balance and pays out the
amount less the fee. Nothing is credited to the other depositors, so with positive
amounts and no tokens sent to the vaults directly, what a vault holds beyond the
recorded balances is the sum of all fees it has charged.
-/
namespace YieldLadder
open Foundation

namespace TierVault

/-- The tier has no fee, the asset is unlocked, or the fee rounds down to nothing. -/
def FeeFree (v : TierVault) (asset : Address) (amount : ℤ) : Prop :=
  ∀ p ∈ v.params, v.emergency asset = true ∨ amount * p.exitFeeFp < SCALING_FACTOR

theorem exitFee_eq_zero_iff (v : TierVault) (asset : Address) {amount : ℤ} (ha : 0 ≤ amount) :
    v.exitFee asset amount = 0 ↔ v.FeeFree asset amount := by
  cases hp : v.params with
  | none => simp [exitFee, FeeFree, hp]
  | some p =>
    obtain ⟨h0, _⟩ := exitFeeFp_mem hp
    have hprod : 0 ≤ amount * p.exitFeeFp := Int.mul_nonneg ha h0
    rw [exitFee_of_params hp]
    simp only [FeeFree, hp, Option.mem_def, Option.some.injEq, forall_eq', Locked.feeOf]
    cases v.emergency asset with
    | true => simp
    | false =>
      simp only [Bool.false_eq_true, if_false, false_or]
      rw [Int.tdiv_eq_ediv_of_nonneg hprod]
      unfold SCALING_FACTOR
      omega

end TierVault

namespace Deployment
variable {D : Deployment} {rule : TokenRule} {w : World} {c : World.Invocation} {r : World × Reply}
variable {env : Env} {tier t : Tier} {user asset : Address} {amount : ℤ}

/-- Exits have positive amounts, and nobody sends tokens to a vault but through the router. -/
structure Regular (D : Deployment) (c : World.Invocation) : Prop where
  withdraw : ∀ user tier asset amount,
    c.2 = .router (.withdraw user tier asset amount) → 0 < amount
  earlyExit : ∀ user tier asset amount,
    c.2 = .router (.earlyExit user tier asset amount) → 0 < amount
  transfer : ∀ asset src dst amount t, c.2 = .transfer asset src dst amount → dst ≠ D.vault t

/-- The call is no early exit from this vault in this asset that goes through and charges a fee. -/
def ChargesNothing (D : Deployment) (rule : TokenRule) (t : Tier) (asset : Address) (w : World)
    (c : World.Invocation) : Prop :=
  ∀ user amount r v, c.2 = .router (.earlyExit user t asset amount) →
    World.exec rule D.router w c = .ok r → w.vaults (D.vault t) = some v → v.FeeFree asset amount

theorem gain_regular (hw : D.Wired w) (hc : D.Regular c) (t : Tier) (asset : Address) :
    0 ≤ D.gain t asset w c := by
  obtain ⟨env, action⟩ := c
  cases action with
  | router call =>
    cases call with
    | withdraw user tier a x =>
      have hx := hc.withdraw user tier a x rfl
      dsimp only [gain]
      split <;> omega
    | earlyExit user tier a x =>
      have hx := hc.earlyExit user tier a x rfl
      obtain ⟨v, hv⟩ := hw.vault t
      have hmem := TierVault.exitFee_mem v asset hx.le
      simp only [gain, World.feeAt, hv, Option.map_some, Option.getD_some]
      split <;> omega
    | _ => exact le_rfl
  | vault callee call => exact le_rfl
  | transfer a src dst x =>
    dsimp only [gain]
    rw [if_neg fun h => hc.transfer a src dst x t rfl h.1]

theorem gain_eq_zero_iff (hw : D.Wired w) (hc : D.Regular c) (t : Tier) (asset : Address) :
    (∀ r, World.exec rule D.router w c = .ok r → D.gain t asset w c = 0) ↔
      D.ChargesNothing rule t asset w c := by
  obtain ⟨env, action⟩ := c
  have hquiet : Quiet action → ((∀ r, World.exec rule D.router w (env, action) = .ok r →
      D.gain t asset w (env, action) = 0) ↔ D.ChargesNothing rule t asset w (env, action)) := by
    intro hq
    simp only [gain_of_quiet hq, implies_true, true_iff]
    exact fun user amount r v hcall => absurd hcall (hq.earlyExit user t asset amount)
  cases action with
  | router call =>
    cases call with
    | withdraw user tier a x =>
      have hx := hc.withdraw user tier a x rfl
      have hzero : D.gain t asset w (env, .router (.withdraw user tier a x)) = 0 := by
        dsimp only [gain]
        split <;> omega
      simp [hzero, ChargesNothing]
    | earlyExit user tier a x =>
      have hx := hc.earlyExit user tier a x rfl
      obtain ⟨v, hv⟩ := hw.vault t
      have hmem := TierVault.exitFee_mem v asset hx.le
      have hiff := TierVault.exitFee_eq_zero_iff v asset hx.le
      have hgain : tier = t ∧ a = asset →
          D.gain t asset w (env, .router (.earlyExit user tier a x)) = v.exitFee asset x := by
        intro heq
        simp only [gain, World.feeAt, hv, Option.map_some, Option.getD_some, if_pos heq]
        omega
      constructor
      · rintro hall _ _ r v' hcall h hv'
        cases hcall
        cases hv.symm.trans hv'
        exact hiff.mp ((hgain ⟨rfl, rfl⟩).symm.trans (hall r h))
      · intro hcharge r h
        by_cases heq : tier = t ∧ a = asset
        · obtain ⟨rfl, rfl⟩ := heq
          exact (hgain ⟨rfl, rfl⟩).trans (hiff.mpr (hcharge user x r v rfl h hv))
        · exact if_neg heq
    | _ => exact hquiet ⟨by simp, by simp, by simp⟩
  | vault callee call => exact hquiet ⟨by simp, by simp, by simp⟩
  | transfer a src dst x =>
    have hzero : D.gain t asset w (env, .transfer a src dst x) = 0 :=
      if_neg fun h => hc.transfer a src dst x t rfl h.1
    simp [hzero, ChargesNothing]

/-- An early exit leaves what the others may claim as it was. -/
theorem earlyExit_others (hw : D.Wired w) (hg : D.Guards rule)
    (hc : D.Admits (env, .router (.earlyExit user tier asset amount)))
    (h : World.exec rule D.router w (env, .router (.earlyExit user tier asset amount)) = .ok r) :
    ∑ᶠ u, (if u = user then 0 else r.1.balanceAt (D.vault tier) u asset) =
      ∑ᶠ u, if u = user then 0 else w.balanceAt (D.vault tier) u asset := by
  obtain ⟨heffect, _⟩ := exec_effect hw hg hc h
  cases heffect with
  | earlyExit _ _ _ _ v v' reply _ huser hran ht =>
    have hmove : (D.custody tier asset w).Move user (-amount)
        (r.1.tokens asset (D.vault tier) - w.tokens asset (D.vault tier))
        (D.custody tier asset r.1) := by
      refine ⟨by simp [custody], fun u => ?_⟩
      simp only [custody]
      rw [hran.balanceAt, if_pos rfl]
      by_cases hu : u = user
      · subst hu
        simp [TierVault.credited]
      · simp [TierVault.credited, hu]
    exact hmove.owedOthers
  | quiet _ hq => exact absurd rfl (hq.earlyExit _ _ _ _)
  | keep _ hq => exact absurd rfl (hq.earlyExit _ _ _ _)

/-- In every state reached by regular calls from a fresh deployment: an early exit raises what the
other depositors may claim by its fee exactly when it charges none or there are no others; and a
vault holds exactly what it owes if and only if no early exit from it has charged a fee. -/
theorem run_fees (hf : D.Fresh w) (hempty : ∀ t asset, w.tokens asset (D.vault t) = 0)
    (hg : D.Guards rule) {cs : List World.Invocation} (hcs : ∀ c ∈ cs, D.Admits c ∧ D.Regular c) :
    (∀ env user tier asset amount r v, 0 < amount →
      D.Admits (env, .router (.earlyExit user tier asset amount)) →
      (run (World.exec rule D.router) w cs).vaults (D.vault tier) = some v →
      World.exec rule D.router (run (World.exec rule D.router) w cs)
        (env, .router (.earlyExit user tier asset amount)) = .ok r →
      (((∃ u, u ≠ user ∧ 0 < v.balance u asset) →
        ∑ᶠ u, (if u = user then 0 else r.1.balanceAt (D.vault tier) u asset) =
          (∑ᶠ u, if u = user then 0 else v.balance u asset) + v.exitFee asset amount) ↔
        v.FeeFree asset amount ∨ ¬∃ u, u ≠ user ∧ 0 < v.balance u asset)) ∧
    ∀ t asset, (run (World.exec rule D.router) w cs).tokens asset (D.vault t) =
        ∑ᶠ user, (run (World.exec rule D.router) w cs).balanceAt (D.vault t) user asset ↔
      Meets (World.exec rule D.router) (D.ChargesNothing rule t asset) w cs := by
  have hw := run_wired hf.wired hg fun c hc => (hcs c hc).1
  have hm : Meets (World.exec rule D.router) (fun _ c => D.Admits c ∧ D.Regular c) w cs :=
    meets_of_forall hcs
  constructor
  · intro env user tier asset amount r v hpos hc hv h
    have hothers := earlyExit_others hw hg hc h
    have hbal : ∀ u, (run (World.exec rule D.router) w cs).balanceAt (D.vault tier) u asset =
        v.balance u asset := by
      intro u
      simp [World.balanceAt, hv]
    simp only [hbal] at hothers
    rw [hothers, ← TierVault.exitFee_eq_zero_iff v asset hpos.le]
    by_cases hother : ∃ u, u ≠ user ∧ 0 < v.balance u asset
    · simp [hother]
    · simp [hother]
  · intro t asset
    have hstart : (D.custody t asset w).surplus = 0 := by
      rw [Custody.surplus, fresh_owed hf, sub_zero]
      exact hempty t asset
    have htally := run_tally (m := fun w => (D.custody t asset w).surplus) (I := D.Wired)
      (g := D.gain t asset) (fun w c r hc hw h => by
        obtain ⟨user, x, y, hmove, hgain⟩ := exec_move hw hg hc.1 h t asset
        refine ⟨exec_wired hw hg hc.1 h, ?_⟩
        rw [hmove.surplus, hgain]) hf.wired hm
    have hzero := (tally_eq_zero_iff (I := D.Wired) (g := D.gain t asset) (fun w c r hc hw h =>
      ⟨exec_wired hw hg hc.1 h, gain_regular hw hc.2 t asset⟩) hf.wired hm).2
    have hcongr := meets_congr (Q := D.ChargesNothing rule t asset) (I := D.Wired)
      (fun w c r hc hw h => exec_wired hw hg hc.1 h)
      (fun w c hc hw => gain_eq_zero_iff hw hc.2 t asset) hf.wired hm
    rw [← hcongr, ← hzero]
    rw [hstart, zero_add] at htally
    rw [← htally]
    exact sub_eq_zero.symm

/-- A token that lets the router pay out of every contract. -/
def payoutsRule : TokenRule := .payouts harness.router fun _ => true

/-- Accounts 7 and 8 deposit 50 USDC each into VaultL3. -/
def depositsRun : List World.Invocation :=
  [signed 1 (.deposit (.account 7) .l3 usdc 500_000_000),
   signed 1 (.deposit (.account 8) .l3 usdc 500_000_000)]

def twoDepositors : World := run (World.exec payoutsRule harness.router) harnessWorld depositsRun

theorem admits_depositsRun : ∀ c ∈ depositsRun, harness.Admits c := by
  simp [depositsRun, admits_signed]

theorem run_fees_harness :
    (∀ env user tier asset amount r v, 0 < amount →
      harness.Admits (env, .router (.earlyExit user tier asset amount)) →
      twoDepositors.vaults (harness.vault tier) = some v →
      World.exec payoutsRule harness.router twoDepositors
        (env, .router (.earlyExit user tier asset amount)) = .ok r →
      (((∃ u, u ≠ user ∧ 0 < v.balance u asset) →
        ∑ᶠ u, (if u = user then 0 else r.1.balanceAt (harness.vault tier) u asset) =
          (∑ᶠ u, if u = user then 0 else v.balance u asset) + v.exitFee asset amount) ↔
        v.FeeFree asset amount ∨ ¬∃ u, u ≠ user ∧ 0 < v.balance u asset)) ∧
    ∀ t asset, twoDepositors.tokens asset (harness.vault t) =
        ∑ᶠ user, twoDepositors.balanceAt (harness.vault t) user asset ↔
      Meets (World.exec payoutsRule harness.router)
        (harness.ChargesNothing payoutsRule t asset) harnessWorld depositsRun :=
  run_fees harness_fresh (fun t asset => by simp [harnessWorld, vault]) (guards_payouts _)
    fun c hc => ⟨admits_depositsRun c hc, by
      simp only [depositsRun, List.mem_cons, List.not_mem_nil, or_false] at hc
      rcases hc with rfl | rfl <;> constructor <;> simp [signed]⟩

/-- Account 7 exits with 20 USDC early and pays a fee of 0.1 USDC; what account 8 may claim stays. -/
theorem fee_not_redistributed :
    0 < twoDepositors.balanceAt (harness.vault .l3) (.account 8) usdc ∧
      twoDepositors.feeAt (harness.vault .l3) usdc 200_000_000 = 1_000_000 ∧
      ∃ r, World.exec payoutsRule harness.router twoDepositors
          (signed 2 (.earlyExit (.account 7) .l3 usdc 200_000_000)) = .ok r ∧
        ∑ᶠ u, (if u = .account 7 then 0 else r.1.balanceAt (harness.vault .l3) u usdc) ≠
          (∑ᶠ u, if u = .account 7 then 0
            else twoDepositors.balanceAt (harness.vault .l3) u usdc) + 1_000_000 := by
  have hw : harness.Wired twoDepositors :=
    run_wired harness_fresh.wired (guards_payouts _) admits_depositsRun
  obtain ⟨r, hr⟩ : ∃ r, World.exec payoutsRule harness.router twoDepositors
      (signed 2 (.earlyExit (.account 7) .l3 usdc 200_000_000)) = .ok r := ⟨_, rfl⟩
  have hothers := earlyExit_others hw (guards_payouts _) (admits_signed 2 _) hr
  refine ⟨by decide, by decide, r, hr, ?_⟩
  rw [hothers]
  omega

end Deployment
end YieldLadder
