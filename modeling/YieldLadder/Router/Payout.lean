import YieldLadder.Router.Solvency

/-! # Where a payout stops

The vault answers what it owes and the router asks the token to move it out of the
vault. The direct caller of the token is the router and the balance is the
vault's, so under the host's rule the transfer is refused and the whole call is
reverted. Under a token that lets the vault's admin pay out, it goes through.
-/
namespace YieldLadder.Deployment
open Foundation

variable {D : Deployment} {rule : TokenRule} {token : TokenContract} {w : World} {env : Env}
variable {user asset : Address}
variable {tier : Tier} {amount p : ℤ} {call : VaultCall} {v v' : TierVault} {reply : Reply}

theorem host_refuses (env : Env) (tier : Tier) :
    ¬TokenRule.host.Allows (env.calledBy D.router) (D.vault tier) := by
  rintro (hauth | ⟨c, _, hgrant⟩)
  · exact vault_ne_router tier (Option.some.inj (Env.authorized_contract.mp hauth)).symm
  · cases hgrant

theorem payOut_eq (hw : D.Wired w) (hrun : VaultRouter.isPaused w.router = false)
    (huser : env.Authorized user) (hv : w.vaults (D.vault tier) = some v)
    (hs : v.step (env.calledBy D.router) call = .ok (v', reply)) (hpay : reply.value = .i128 p) :
    VaultRouter.payOut token D.router env w user tier asset call = (do
      let tokens ← VaultRouter.sendPayout token (env.calledBy D.router) w.tokens asset
        (D.vault tier) user p
      pure (⟨w.router, Function.update w.vaults (D.vault tier) (some v'), tokens⟩,
        ⟨.unit, reply.events⟩)) := by
  have hpaused : VaultRouter.requireNotPaused w.router = .ok () :=
    failIf_of_not (by rw [hrun]; exact Bool.false_ne_true)
  have hauth : env.requireAuth user = .ok () := failIf_of_not (not_not.mpr huser)
  have hinvoke : World.invoke (env.calledBy D.router) w (D.vault tier) call =
      .ok ({ w with vaults := Function.update w.vaults (D.vault tier) (some v') }, reply) := by
    simp only [World.invoke, hv, expect_some, ok_bind, hs]
    rfl
  have hvalue : reply.value.asI128 = .ok p := Value.asI128_eq_ok.mpr hpay
  simp only [VaultRouter.payOut, hpaused, hauth, hw.vaultAddr, hinvoke, hvalue, ok_bind]

theorem payOut_unauthorized (asset : Address) (hw : D.Wired w)
    (hrun : VaultRouter.isPaused w.router = false)
    (huser : env.Authorized user) (hv : w.vaults (D.vault tier) = some v)
    (hs : v.step (env.calledBy D.router) call = .ok (v', reply)) (hpay : reply.value = .i128 p)
    (hp : 0 < p) :
    VaultRouter.payOut TokenRule.host D.router env w user tier asset call = .error .unauthorized := by
  simp only [payOut_eq hw hrun huser hv hs hpay, VaultRouter.sendPayout, if_pos hp, Tokens.transfer,
    failIf_of (host_refuses env tier)]
  rfl

theorem payOut_delivers (hw : D.Wired w) (hrun : VaultRouter.isPaused w.router = false)
    (huser : env.Authorized user) (hv : w.vaults (D.vault tier) = some v)
    (hs : v.step (env.calledBy D.router) call = .ok (v', reply)) (hpay : reply.value = .i128 p)
    (hp : 0 < p) (hallow : rule.Allows (env.calledBy D.router) (D.vault tier))
    (hcover : p ≤ w.tokens asset (D.vault tier)) :
    VaultRouter.payOut rule D.router env w user tier asset call =
      .ok (⟨w.router, Function.update w.vaults (D.vault tier) (some v'),
        w.tokens.move asset (D.vault tier) user p⟩, ⟨.unit, reply.events⟩) := by
  have ht : Tokens.transfer rule (env.calledBy D.router) w.tokens asset (D.vault tier) user p =
      .ok (w.tokens.move asset (D.vault tier) user p) :=
    Tokens.transfer_eq_ok.mpr ⟨hallow, hp.le, hcover, rfl⟩
  simp only [payOut_eq hw hrun huser hv hs hpay, VaultRouter.sendPayout, if_pos hp, ht]
  rfl

/-- The call completes and moves exactly `p` of `asset` from the vault to the user. -/
def Delivers (D : Deployment) (w : World) (env : Env) (user : Address) (tier : Tier)
    (asset : Address) (p : ℤ) (call : VaultRouter.Call) : Prop :=
  ∃ r, World.exec .host D.router w (env, .router call) = .ok r ∧
    r.1.tokens = w.tokens.move asset (D.vault tier) user p

/-- In every state reached, an exit that the vault itself would answer with a positive payout is
refused at the router with everything reverted: no payout is ever delivered. -/
theorem payout_never_delivered (hf : D.Fresh w) {cs : List World.Invocation}
    (hcs : ∀ c ∈ cs, D.Admits c) (huser : env.Authorized user)
    (hrun : VaultRouter.isPaused (run (World.exec .host D.router) w cs).router = false)
    (hv : (run (World.exec .host D.router) w cs).vaults (D.vault tier) = some v) :
    (∀ r, v.step (env.calledBy D.router) (.withdraw user asset amount) = .ok r →
      r.2.value = .i128 p → 0 < p →
      World.exec .host D.router (run (World.exec .host D.router) w cs)
          (env, .router (.withdraw user tier asset amount)) = .error .unauthorized ∧
        ¬D.Delivers (run (World.exec .host D.router) w cs) env user tier asset p
          (.withdraw user tier asset amount)) ∧
    (∀ r, v.step (env.calledBy D.router) (.earlyExit user asset amount) = .ok r →
      r.2.value = .i128 p → 0 < p →
      World.exec .host D.router (run (World.exec .host D.router) w cs)
          (env, .router (.earlyExit user tier asset amount)) = .error .unauthorized ∧
        ¬D.Delivers (run (World.exec .host D.router) w cs) env user tier asset p
          (.earlyExit user tier asset amount)) := by
  have hw := run_wired hf.wired guards_host hcs
  have hfault : ∀ {call : VaultRouter.Call},
      World.exec .host D.router (run (World.exec .host D.router) w cs) (env, .router call) =
        .error .unauthorized →
      ¬D.Delivers (run (World.exec .host D.router) w cs) env user tier asset p call := by
    rintro call herr ⟨r, hr, _⟩
    rw [herr] at hr
    cases hr
  constructor
  · intro r hs hpay hp
    have herr := payOut_unauthorized asset hw hrun huser hv hs hpay hp
    exact ⟨herr, hfault herr⟩
  · intro r hs hpay hp
    have herr := payOut_unauthorized asset hw hrun huser hv hs hpay hp
    exact ⟨herr, hfault herr⟩

theorem payout_never_delivered_deposited :
    ∃ v r, deposited.vaults (harness.vault .flex) = some v ∧
      v.step (Env.calledBy ⟨[7, 8], none, 2⟩ harness.router)
        (.withdraw (.account 7) usdc 5_000_000) = .ok r ∧
      World.exec .host harness.router deposited
        (signed 2 (.withdraw (.account 7) .flex usdc 5_000_000)) = .error .unauthorized ∧
      ¬harness.Delivers deposited ⟨[7, 8], none, 2⟩ (.account 7) .flex usdc 5_000_000
        (.withdraw (.account 7) .flex usdc 5_000_000) :=
  ⟨_, _, rfl, rfl, (payout_never_delivered harness_fresh (by simp [admits_signed]) (by decide) rfl rfl).1
    _ rfl rfl (by decide)⟩

/-- Account 7 has 1 USDC in VaultFlex, the vault would answer a withdrawal of 0.5 USDC with a payout
of 0.5 USDC, and the signed router call is refused. -/
theorem deposited_not_paid :
    VaultRouter.isPaused deposited.router = false ∧
      deposited.tokens usdc (harness.vault .flex) = 10_000_000 ∧
      (∃ v v', deposited.vaults (harness.vault .flex) = some v ∧
        v.step (Env.calledBy ⟨[7, 8], none, 2⟩ harness.router)
          (.withdraw (.account 7) usdc 5_000_000) =
          .ok (v', ⟨.i128 5_000_000, [.withdraw (.account 7) usdc 5_000_000]⟩)) ∧
      World.exec .host harness.router deposited
        (signed 2 (.withdraw (.account 7) .flex usdc 5_000_000)) = .error .unauthorized :=
  ⟨rfl, by decide, ⟨_, _, rfl, rfl⟩, rfl⟩

end YieldLadder.Deployment
