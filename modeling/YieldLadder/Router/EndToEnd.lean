import YieldLadder.Router.Solvency
import YieldLadder.Vault.Deposits

/-! # A deposit through the router, end to end

The router asks the circuit breaker, the registry and its own minimum, moves the
tokens and calls the vault of the tier, which asks its own minimum, its cap and the
range of each value it computes. `Accepts` collects what all of them ask, and
`afterDeposit` is the whole world the call leaves when they agree.
-/
namespace YieldLadder
open Foundation

theorem TierVault.minDeposit_tier (v : TierVault) : VaultRouter.minDeposit v.tier = v.minDeposit := by
  cases v <;> rfl

namespace Deployment
variable (D : Deployment)

/-- Everything that a deposit of `amount` of `asset` by `user` into `tier` has to meet. -/
structure Accepts (w : World) (ledger : ℕ) (user : Address) (tier : Tier) (asset : Address) (amount : ℤ) :
    Prop where
  running : VaultRouter.isPaused w.router = false
  allowed : w.router.allowlist.isAssetAllowed asset = true
  minimum : VaultRouter.minDeposit tier ≤ amount
  funds : amount ≤ w.tokens asset user
  room : ∀ v, w.vaults (D.vault tier) = some v → v.HasRoom amount
  fits : ∀ v, w.vaults (D.vault tier) = some v → v.DepositFits ledger (user, asset) amount

def afterDeposit (w : World) (ledger : ℕ) (user : Address) (tier : Tier) (asset : Address) (amount : ℤ) :
    World where
  router := w.router
  vaults := Function.update w.vaults (D.vault tier)
    ((w.vaults (D.vault tier)).map (·.withDeposit ledger (user, asset) amount))
  tokens := w.tokens.move asset user (D.vault tier) amount

/-- What a deposit changed between `w` and `w'`, entry by entry, and what it left. -/
structure Deposited (w w' : World) (ledger : ℕ) (user : Address) (tier : Tier) (asset : Address)
    (amount : ℤ) : Prop where
  router : w'.router = w.router
  paid : w'.tokens asset user = w.tokens asset user - amount
  received : w'.tokens asset (D.vault tier) = w.tokens asset (D.vault tier) + amount
  otherTokens : ∀ a holder, a ≠ asset ∨ holder ≠ user ∧ holder ≠ D.vault tier →
    w'.tokens a holder = w.tokens a holder
  vault : ∃ v, w.vaults (D.vault tier) = some v ∧
    w'.vaults (D.vault tier) = some (v.withDeposit ledger (user, asset) amount) ∧
    v.Credited (v.withDeposit ledger (user, asset) amount) ledger (user, asset) amount
  otherVaults : ∀ a, a ≠ D.vault tier → w'.vaults a = w.vaults a

variable {D} {rule : TokenRule} {w : World} {env : Env} {n ledger : ℕ} {tier : Tier} {asset : Address}
variable {amount : ℤ}

/-- In a wired deployment a deposit that its user signs goes through exactly when it is accepted, and
leaves exactly this world. -/
theorem deposit_iff (hw : D.Wired w) (hn : n ∈ env.signers) {r : World × Reply} :
    World.exec rule D.router w (env, .router (.deposit (.account n) tier asset amount)) = .ok r ↔
      D.Accepts w env.ledger (.account n) tier asset amount ∧
      r = (D.afterDeposit w env.ledger (.account n) tier asset amount,
        ⟨.unit, [.deposit (.account n) asset amount]⟩) := by
  obtain ⟨v, hv⟩ := hw.vault tier
  obtain ⟨t, ht, htier⟩ := hw.only _ v hv
  obtain rfl : tier = t := vault_inj.mp ht
  have huser : env.Authorized (.account n) := .inl ⟨n, hn, rfl⟩
  have hallow : rule.Allows (env.calledBy D.router) (.account n) := .inl (.inl ⟨n, hn, rfl⟩)
  have hmin : VaultRouter.minDeposit tier = v.minDeposit := htier ▸ v.minDeposit_tier
  have hauth := hw.adminAuthorized hv env
  simp only [World.exec, VaultRouter.step, VaultRouter.deposit, VaultRouter.requireNotPaused, bind_eq_ok,
    failIf_eq_ok, Env.requireAuth_eq_ok, Tokens.transfer_eq_ok, pure_eq_ok, Bool.not_eq_true,
    Bool.not_eq_false, hw.vaultAddr, Except.ok.injEq, World.invoke, expect_eq_ok, not_lt, hmin]
  constructor
  · rintro ⟨_, hrun, _, _, _, hallowed, _, hle, _, rfl, _, ⟨_, h0, hfunds, rfl⟩, q, ⟨x, hx, y, hy, rfl⟩, rfl⟩
    obtain rfl : v = x := Option.some.inj (hv.symm.trans hx)
    obtain ⟨⟨_, hroom, hfits⟩, rfl⟩ := (TierVault.deposit_iff hauth h0).mp hy
    refine ⟨⟨hrun, hallowed, hmin ▸ hle, hfunds, ?_, ?_⟩, ?_⟩
    · intro x hx
      obtain rfl : v = x := Option.some.inj (hv.symm.trans hx)
      exact hroom
    · intro x hx
      obtain rfl : v = x := Option.some.inj (hv.symm.trans hx)
      exact hfits
    · simp only [afterDeposit, hv, Option.map_some, Env.calledBy_ledger]
  · rintro ⟨⟨hrun, hallowed, hle, hfunds, hroom, hfits⟩, rfl⟩
    rw [hmin] at hle
    have h0 : 0 ≤ amount := v.minDeposit_pos.le.trans hle
    have hstep : v.step (env.calledBy D.router) (.deposit (.account n) asset amount) = .ok _ :=
      (TierVault.deposit_iff hauth h0).mpr ⟨⟨hle, hroom v hv, hfits v hv⟩, rfl⟩
    refine ⟨(), hrun, (), huser, (), hallowed, (), hle, _, rfl, _, ⟨hallow, h0, hfunds, rfl⟩, _,
      ⟨v, hv, _, hstep, rfl⟩, ?_⟩
    simp only [afterDeposit, hv, Option.map_some, Env.calledBy_ledger]

theorem afterDeposit_deposited (hw : D.Wired w) (ledger n : ℕ) (tier : Tier) (asset : Address)
    (amount : ℤ) :
    D.Deposited w (D.afterDeposit w ledger (.account n) tier asset amount) ledger (.account n) tier asset
      amount := by
  obtain ⟨v, hv⟩ := hw.vault tier
  have hne : Address.account n ≠ D.vault tier := by simp [vault]
  constructor
  · rfl
  · exact Tokens.move_src w.tokens asset hne amount
  · exact Tokens.move_dst w.tokens asset hne amount
  · rintro a holder hother
    by_cases ha : a = asset
    · subst ha
      rcases hother with hne' | ⟨huser, hvault⟩
      · exact absurd rfl hne'
      · exact Tokens.move_other w.tokens a huser hvault amount
    · exact Tokens.move_other_asset w.tokens ha _ _ amount holder
  · refine ⟨v, hv, ?_, TierVault.withDeposit_credited (hw.admin _ v hv) _ _ _⟩
    simp [afterDeposit, hv]
  · intro a ha
    exact Function.update_of_ne ha _ _

/-- In every state that a run from a fresh deployment reaches, a deposit that its user signs goes
through exactly when it is accepted; then it changes exactly the entries of `Deposited`, once, and
otherwise nothing. -/
theorem run_deposit (hf : D.Fresh w) (hg : D.Guards rule) {cs : List World.Invocation}
    (hcs : ∀ c ∈ cs, D.Admits c) (hn : n ∈ env.signers) (tier : Tier) (asset : Address) (amount : ℤ) :
    ((∃ r, World.exec rule D.router (run (World.exec rule D.router) w cs)
        (env, .router (.deposit (.account n) tier asset amount)) = .ok r) ↔
      D.Accepts (run (World.exec rule D.router) w cs) env.ledger (.account n) tier asset amount) ∧
    (∀ r, World.exec rule D.router (run (World.exec rule D.router) w cs)
        (env, .router (.deposit (.account n) tier asset amount)) = .ok r →
      r.1 = D.afterDeposit (run (World.exec rule D.router) w cs) env.ledger (.account n) tier asset
          amount ∧
        D.Deposited (run (World.exec rule D.router) w cs) r.1 env.ledger (.account n) tier asset amount) ∧
    ∀ e, World.exec rule D.router (run (World.exec rule D.router) w cs)
        (env, .router (.deposit (.account n) tier asset amount)) = .error e →
      next (World.exec rule D.router) (run (World.exec rule D.router) w cs)
          (env, .router (.deposit (.account n) tier asset amount)) =
        run (World.exec rule D.router) w cs := by
  have hw := run_wired hf.wired hg hcs
  refine ⟨⟨?_, ?_⟩, ?_, fun e he => next_error he⟩
  · rintro ⟨r, hr⟩
    exact ((deposit_iff hw hn).mp hr).1
  · intro haccepts
    exact ⟨_, (deposit_iff hw hn).mpr ⟨haccepts, rfl⟩⟩
  · intro r hr
    obtain ⟨_, rfl⟩ := (deposit_iff hw hn).mp hr
    exact ⟨rfl, afterDeposit_deposited hw _ _ _ _ _⟩

/-- After account 7's deposit into VaultFlex, account 8 deposits 50 EURC into VaultL3. -/
theorem run_deposit_harness :
    harness.Accepts deposited 2 (.account 8) .l3 eurc 500_000_000 ∧
      harness.Deposited deposited (next (World.exec .host harness.router) deposited
        (signed 2 (.deposit (.account 8) .l3 eurc 500_000_000))) 2 (.account 8) .l3 eurc 500_000_000 := by
  obtain ⟨r, hr⟩ : ∃ r, World.exec .host harness.router deposited
      (signed 2 (.deposit (.account 8) .l3 eurc 500_000_000)) = .ok r := ⟨_, rfl⟩
  have hcs : ∀ c ∈ [signed 1 (.deposit (.account 7) .flex usdc 10_000_000)], harness.Admits c := by
    simp [admits_signed]
  have hsigned : 8 ∈ (⟨[7, 8], none, 2⟩ : Env).signers := by decide
  obtain ⟨hiff, hok, _⟩ := run_deposit harness_fresh guards_host hcs hsigned .l3 eurc 500_000_000
  refine ⟨hiff.mp ⟨r, hr⟩, ?_⟩
  rw [next_ok hr]
  exact (hok r hr).2

end Deployment
end YieldLadder
