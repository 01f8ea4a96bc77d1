import YieldLadder.Router.Fees
import YieldLadder.Router.Payout
import YieldLadder.Vault.Ranges

/-! # An exit through the router, end to end

Where the token lets the router pay out of the vaults, and no exit of a negative amount has
gone through, the vaults cover every position. Then an exit asks no more than the circuit
breaker and what the vault itself asks, and pays exactly what the vault answers.
-/
namespace YieldLadder.Deployment
open Foundation

/-- A wired deployment whose vaults keep their totals in range and hold at least what they owe. -/
structure Funded (D : Deployment) (w : World) : Prop where
  wired : D.Wired w
  range : ∀ a v, w.vaults a = some v → BookInRange v.book
  solvent : ∀ t asset, (D.custody t asset w).Solvent

/-- A token that lets the router pay out of every vault. -/
def Pays (D : Deployment) (rule : TokenRule) : Prop :=
  ∀ env t, rule.Allows (Env.calledBy env D.router) (D.vault t)

/-- What an exit of `amount` leaves: the vault's book without it, and the payout moved. -/
structure Paid (D : Deployment) (w w' : World) (user : Address) (tier : Tier) (asset : Address)
    (amount payout : ℤ) : Prop where
  router : w'.router = w.router
  tokens : w'.tokens = w.tokens.move asset (D.vault tier) user payout
  vault : ∃ v v', w.vaults (D.vault tier) = some v ∧
    w'.vaults = Function.update w.vaults (D.vault tier) (some v') ∧
    v'.book = v.book.takeOut (user, asset) amount

variable {D : Deployment} {rule : TokenRule} {w : World} {env : Env} {user asset : Address} {tier : Tier}
variable {amount p : ℤ} {c : World.Invocation} {r : World × Reply} {v v' : TierVault} {call : VaultCall}
variable {reply : Reply}

theorem exec_inRange (hc : D.Admits c) (hrange : ∀ a v, w.vaults a = some v → BookInRange v.book)
    (h : World.exec rule D.router w c = .ok r) : ∀ a v, r.1.vaults a = some v → BookInRange v.book := by
  intro a v' hv'
  rcases World.exec_reached h a with ⟨_, hnone⟩ | ⟨v, x, hv, hx, hreach⟩
  · cases hnone.symm.trans hv'
  obtain rfl : x = v' := Option.some.inj (hx.symm.trans hv')
  cases hreach with
  | idle heq =>
    rw [heq]
    exact hrange a v hv
  | direct call reply hcall hstep =>
    have hop : TierVault.IsOperation call := fun args heq => hc.operation a args (heq ▸ hcall)
    exact TierVault.step_inRange hop (hrange a v hv) hstep
  | routed routed tier call reply _ hforward hstep =>
    exact TierVault.step_inRange (VaultRouter.forwarded_operation hforward) (hrange a v hv) hstep

theorem Fresh.inRange (hf : D.Fresh w) : ∀ a v, w.vaults a = some v → BookInRange v.book := by
  intro a v hv
  obtain ⟨t, _, hinit, _⟩ := hf.only a v hv
  exact (TierVault.initialised_sound hinit).range

theorem run_inRange (hf : D.Fresh w) {cs : List World.Invocation} (hcs : ∀ c ∈ cs, D.Admits c) :
    ∀ a v, (run (World.exec rule D.router) w cs).vaults a = some v → BookInRange v.book := by
  have hm : Meets (World.exec rule D.router) (fun _ c => D.Admits c) w cs := meets_of_forall hcs
  exact run_invariant_of_meets (I := fun w => ∀ a v, w.vaults a = some v → BookInRange v.book)
    (fun _ _ _ hc hrange h => exec_inRange hc hrange h) hf.inRange hm

theorem run_balance_inRange (hf : D.Fresh w) (hg : D.Guards rule) {cs : List World.Invocation}
    (hcs : ∀ c ∈ cs, D.Admits c) (vault user asset : Address) :
    InI128 ((run (World.exec rule D.router) w cs).balanceAt vault user asset) := by
  have hw : D.Wired (run (World.exec rule D.router) w cs) := run_wired hf.wired hg hcs
  rw [World.balanceAt]
  cases hv : (run (World.exec rule D.router) w cs).vaults vault with
  | none => exact inI128_zero
  | some v =>
    have hcoherent := hw.coherent vault v hv
    exact inI128_of_le (hcoherent.principal_nonneg _) (hcoherent.principal_le_total _)
      (run_inRange hf hcs vault v hv).totalPrincipal

theorem exec_funded (hg : D.Guards rule) (hc : D.Admits c) (hno : ¬D.Inflates w c) (hw : D.Funded w)
    (h : World.exec rule D.router w c = .ok r) : D.Funded r.1 where
  wired := exec_wired hw.wired hg hc h
  range := exec_inRange hc hw.range h
  solvent t asset := by
    obtain ⟨user, x, y, hmove, hgain⟩ := exec_move hw.wired hg hc h t asset
    have hnonneg := gain_nonneg hw.wired hg hc hno h t asset
    exact hmove.solvent (by omega) (hw.solvent t asset)

theorem Fresh.funded (hf : D.Fresh w) : D.Funded w where
  wired := hf.wired
  range := hf.inRange
  solvent := fresh_solvent hf

theorem run_funded (hf : D.Fresh w) (hg : D.Guards rule) {cs : List World.Invocation}
    (hcs : ∀ c ∈ cs, D.Admits c)
    (hno : Meets (World.exec rule D.router) (fun w c => ¬D.Inflates w c) w cs) :
    D.Funded (run (World.exec rule D.router) w cs) := by
  have hm : Meets (World.exec rule D.router) (fun w c => D.Admits c ∧ ¬D.Inflates w c) w cs :=
    meets_and.mpr ⟨meets_of_forall hcs, hno⟩
  exact run_invariant_of_meets (I := D.Funded) (fun _ _ _ hc hw h => exec_funded hg hc.1 hc.2 hw h) hf.funded hm

theorem Funded.sound (hw : D.Funded w) (hv : w.vaults (D.vault tier) = some v) : v.Sound :=
  ⟨hw.wired.coherent _ v hv, hw.range _ v hv⟩

theorem Funded.covers (hw : D.Funded w) (hv : w.vaults (D.vault tier) = some v) (user asset : Address) :
    v.balance user asset ≤ w.tokens asset (D.vault tier) := by
  have hown : w.balanceAt (D.vault tier) user asset = v.balance user asset := by
    rw [World.balanceAt, hv]
    rfl
  have hle := hw.wired.balanceAt_le tier user asset
  have hsolvent : ∑ᶠ u, w.balanceAt (D.vault tier) u asset ≤ w.tokens asset (D.vault tier) :=
    hw.solvent tier asset
  omega

theorem paid_eq_move (tokens : Tokens) (asset vault user : Address) (hp : 0 ≤ p) :
    paid tokens asset vault user p = tokens.move asset vault user p := by
  unfold paid
  split
  · rfl
  · obtain rfl : p = 0 := by omega
    exact (Tokens.move_zero tokens asset vault user).symm

/-- Where the router may pay out, an exit goes through whose vault answers what it holds. -/
theorem payOut_iff (hw : D.Wired w) (hpays : D.Pays rule) (huser : env.Authorized user)
    (hv : w.vaults (D.vault tier) = some v) (hop : TierVault.IsOperation call)
    (hanswer : ∀ q, v.step (env.calledBy D.router) call = .ok q → ∃ p, q.2.value = .i128 p ∧
      p ≤ w.tokens asset (D.vault tier)) :
    (∃ r, VaultRouter.payOut rule D.router env w user tier asset call = .ok r) ↔
      VaultRouter.isPaused w.router = false ∧ ∃ q, v.step (env.calledBy D.router) call = .ok q := by
  constructor
  · rintro ⟨r, h⟩
    obtain ⟨x, x', reply, payout, hrun, _, hran, _⟩ := payOut_ok hw hop h
    obtain rfl : v = x := Option.some.inj (hv.symm.trans hran.found)
    exact ⟨hrun, _, hran.step⟩
  · rintro ⟨hrun, ⟨v', reply⟩, hs⟩
    obtain ⟨p, hpay, hcover⟩ := hanswer _ hs
    rcases lt_or_ge 0 p with hp | hp
    · exact ⟨_, payOut_delivers hw hrun huser hv hs hpay hp (hpays env tier) hcover⟩
    · exact payOut_of_step hw hrun huser hv hs hpay hp

/-- Exactly when an exit of a positive amount goes through. -/
theorem exit_iff (e : Exit) (hw : D.Funded w) (hpays : D.Pays rule) (huser : env.Authorized user) (h0 : 0 < amount)
    (hv : w.vaults (D.vault tier) = some v) :
    (∃ r, VaultRouter.payOut rule D.router env w user tier asset (e.call user asset amount) = .ok r) ↔
      VaultRouter.isPaused w.router = false ∧ v.ExitChecks env.ledger user asset amount e ∧
        amount ≤ v.balance user asset ∧
        (amount < v.balance user asset → InI128 (v.sharesOf user asset * amount)) := by
  have hvault : (∃ q, v.step (env.calledBy D.router) (e.call user asset amount) = .ok q) ↔
      v.ExitChecks env.ledger user asset amount e ∧ amount ≤ v.balance user asset ∧
        (amount < v.balance user asset → InI128 (v.sharesOf user asset * amount)) :=
    TierVault.exit_iff e (hw.sound hv) (hw.wired.adminAuthorized hv env) h0
  rw [← hvault]
  apply payOut_iff hw.wired hpays huser hv (TierVault.exit_operation e)
  intro q hq
  have hcovers := hw.covers hv user asset
  have hle := (hvault.mp ⟨q, hq⟩).2.1
  have hpayout := v.exitPayout_mem asset e h0.le
  exact ⟨_, TierVault.exit_value hq, by omega⟩

theorem exit_paid {e : Exit} (hw : D.Wired w) (h0 : 0 < amount) (hv : w.vaults (D.vault tier) = some v)
    (h : VaultRouter.payOut rule D.router env w user tier asset (e.call user asset amount) = .ok r) :
    D.Paid w r.1 user tier asset amount (v.exitPayout asset amount e) := by
  obtain ⟨x, v', reply, payout, _, _, hran, hpay, htokens, hrouter, _⟩ :=
    payOut_ok hw (TierVault.exit_operation e) h
  obtain rfl : v = x := Option.some.inj (hv.symm.trans hran.found)
  obtain rfl : payout = v.exitPayout asset amount e :=
    Value.i128.inj (hpay.symm.trans (TierVault.exit_value hran.step))
  have hnonneg := (v.exitPayout_mem asset e h0.le).1
  exact ⟨hrouter, htokens.trans (paid_eq_move _ _ _ _ hnonneg), v, v', hran.found, hran.vaults,
    TierVault.exit_book e.call_cases hran.step⟩

/-- In every state that a run without a slipped exit reaches, a signed withdrawal or early exit of a positive amount
goes through exactly when the router is not paused and the vault's own checks pass, and it moves exactly the amount,
less the fee of an early exit, from the vault to the user. -/
theorem run_exits (hf : D.Fresh w) (hg : D.Guards rule) (hpays : D.Pays rule) {cs : List World.Invocation}
    (hcs : ∀ c ∈ cs, D.Admits c) (hno : Meets (World.exec rule D.router) (fun w c => ¬D.Inflates w c) w cs)
    (huser : env.Authorized user) (h0 : 0 < amount)
    (hv : (run (World.exec rule D.router) w cs).vaults (D.vault tier) = some v) :
    ((∃ r, World.exec rule D.router (run (World.exec rule D.router) w cs)
        (env, .router (.withdraw user tier asset amount)) = .ok r) ↔
      VaultRouter.isPaused (run (World.exec rule D.router) w cs).router = false ∧
        v.Matured env.ledger user asset ∧ amount ≤ v.balance user asset ∧
        (amount < v.balance user asset → InI128 (v.sharesOf user asset * amount))) ∧
    ((∃ r, World.exec rule D.router (run (World.exec rule D.router) w cs)
        (env, .router (.earlyExit user tier asset amount)) = .ok r) ↔
      VaultRouter.isPaused (run (World.exec rule D.router) w cs).router = false ∧
        v.FeeFitsAt asset amount ∧ amount ≤ v.balance user asset ∧
        (amount < v.balance user asset → InI128 (v.sharesOf user asset * amount))) ∧
    (∀ r, World.exec rule D.router (run (World.exec rule D.router) w cs)
        (env, .router (.withdraw user tier asset amount)) = .ok r →
      D.Paid (run (World.exec rule D.router) w cs) r.1 user tier asset amount amount) ∧
    ∀ r, World.exec rule D.router (run (World.exec rule D.router) w cs)
        (env, .router (.earlyExit user tier asset amount)) = .ok r →
      D.Paid (run (World.exec rule D.router) w cs) r.1 user tier asset amount (amount - v.exitFee asset amount) := by
  have hw := run_funded hf hg hcs hno
  refine ⟨exit_iff .withdraw hw hpays huser h0 hv, exit_iff .early hw hpays huser h0 hv, ?_, ?_⟩
  · intro r h
    exact exit_paid (e := .withdraw) hw.wired h0 hv h
  · intro r h
    exact exit_paid (e := .early) hw.wired h0 hv h

theorem pays_payouts {custodian : Address → Bool} (h : ∀ t, custodian (D.vault t) = true) :
    D.Pays (.payouts D.router custodian) := by
  intro env t
  refine .inr ⟨D.router, rfl, ?_⟩
  simp [TokenRule.payouts, h t]

/-- Account 7 takes 20 of its 50 USDC out of VaultL3 early and is paid 19.9 USDC. -/
theorem run_exits_harness :
    ∃ r, World.exec payoutsRule harness.router twoDepositors
        (signed 2 (.earlyExit (.account 7) .l3 usdc 200_000_000)) = .ok r ∧
      harness.Paid twoDepositors r.1 (.account 7) .l3 usdc 200_000_000 199_000_000 := by
  obtain ⟨r, hr⟩ : ∃ r, World.exec payoutsRule harness.router twoDepositors
      (signed 2 (.earlyExit (.account 7) .l3 usdc 200_000_000)) = .ok r := ⟨_, rfl⟩
  obtain ⟨v, hv⟩ : ∃ v, twoDepositors.vaults (harness.vault .l3) = some v := ⟨_, rfl⟩
  have hno : Meets (World.exec payoutsRule harness.router) (fun w c => ¬harness.Inflates w c) harnessWorld
      depositsRun := by
    simp [depositsRun, Meets, Inflates, signed]
  have huser : (⟨[7, 8], none, 2⟩ : Env).Authorized (.account 7) := by decide
  have hfee : v.exitFee usdc 200_000_000 = 1_000_000 := by
    have hat : twoDepositors.feeAt (harness.vault .l3) usdc 200_000_000 = 1_000_000 := by decide
    rwa [World.feeAt, hv] at hat
  have hpaid : harness.Paid twoDepositors r.1 (.account 7) .l3 usdc 200_000_000
      (200_000_000 - v.exitFee usdc 200_000_000) :=
    (run_exits harness_fresh (guards_payouts _) (pays_payouts fun _ => rfl) admits_depositsRun hno huser
      (by decide) hv).2.2.2 r hr
  rw [hfee] at hpaid
  exact ⟨r, hr, hpaid⟩

end YieldLadder.Deployment
