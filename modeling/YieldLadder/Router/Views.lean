import YieldLadder.Router.Codes
import YieldLadder.Router.Fees
import YieldLadder.Router.Ledger
import YieldLadder.Vault.Ranges

/-! # What the router's views show

`position` and `vault_capacity` ask the vault of the tier. A position is answered in every
state that can be reached, and its principal is the sum of the calls on it. The capacity
of a locked tier is the bound that the next deposit is held to; VaultFlex exports neither
function that the router asks for.
-/
namespace YieldLadder
open Foundation

namespace TierVault

@[simp] theorem step_balance (env : Env) (v : TierVault) (user asset : Address) :
    v.step env (.query (.balance user asset)) = .ok (v, ⟨.i128 (v.balance user asset), []⟩) := by
  cases v <;> rfl

@[simp] theorem step_shares (env : Env) (v : TierVault) (user asset : Address) :
    v.step env (.query (.shares user asset)) = .ok (v, ⟨.i128 (v.sharesOf user asset), []⟩) := by
  cases v <;> rfl

@[simp] theorem step_lockUntil (env : Env) (v : TierVault) (user asset : Address) :
    v.step env (.query (.lockUntil user asset)) = .ok (v, ⟨.u32 (v.lockUntil (user, asset)), []⟩) := by
  cases v <;> rfl

@[simp] theorem step_totalBalance (env : Env) (v : TierVault) :
    v.step env (.query .totalBalance) = .ok (v, ⟨.i128 v.totalBalance, []⟩) := by
  cases v <;> rfl

variable {env : Env} {v : TierVault} {s : Locked.State} {amount : ℤ} {value : Value}

theorem exists_params (hs : v.core = some s) : ∃ p, v.params = some p := by
  cases v with
  | flex _ => cases hs
  | _ => exact ⟨_, rfl⟩

/-- A locked vault answers from its core. -/
theorem step_answer {q : Query} (hs : v.core = some s) (hq : ∀ asset, q ≠ .emergencyUnlock asset) :
    v.step env (.query q) = (do
      let value ← Locked.answer s q
      pure (v, ⟨value, []⟩)) := by
  obtain ⟨p, hp⟩ := exists_params hs
  have hsame : v.withCore s = v := by
    cases v <;> cases hs <;> rfl
  have hflag : ¬AboutFlags (.query q) := by
    rintro (⟨_, _, heq⟩ | ⟨asset, heq⟩)
    · cases heq
    · exact hq asset (VaultCall.query.inj heq)
  rw [step_eq_operate hp hs (by simp) hflag, Locked.operate, bind_assoc]
  apply bind_congr
  intro value
  rw [pure_bind, hsame]

theorem step_maxTvl (env : Env) (hs : v.core = some s) :
    v.step env (.query .maxTvl) = .ok (v, ⟨.i128 (Locked.maxTvl s), []⟩) := by
  rw [step_answer hs (by simp)]
  rfl

theorem step_remainingCapacity {r : TierVault × Reply} (hs : v.core = some s) :
    v.step env (.query .remainingCapacity) = .ok r ↔ InI128 (Locked.maxTvl s - v.totalBalance) ∧
      r = (v, ⟨.i128 (max (Locked.maxTvl s - v.totalBalance) 0), []⟩) := by
  rw [step_answer hs (by simp), totalBalance_of_core hs]
  simp only [Locked.answer, Locked.remainingCapacity, bind_assoc, pure_bind, bind_eq_ok, subI128_eq_ok, pure_eq_ok]
  constructor
  · rintro ⟨_, ⟨hin, rfl⟩, rfl⟩
    exact ⟨hin, rfl⟩
  · rintro ⟨hin, rfl⟩
    exact ⟨_, ⟨hin, rfl⟩, rfl⟩

theorem full_iff (hs : v.core = some s) (h0 : 0 < amount) :
    v.Full amount ↔ InI128 (v.totalBalance + amount) ∧ max (Locked.maxTvl s - v.totalBalance) 0 < amount := by
  have hcap : Locked.maxTvl s < v.totalBalance + amount ↔ max (Locked.maxTvl s - v.totalBalance) 0 < amount := by
    rw [max_lt_iff]
    omega
  simp only [Full, hs, Option.some.injEq, exists_eq_left', hcap]

end TierVault

theorem VaultRouter.minDeposit_pos (tier : Tier) : 0 < VaultRouter.minDeposit tier := by
  cases tier <;> decide

namespace Deployment
variable {D : Deployment} {rule : TokenRule} {w : World} {env : Env} {tier : Tier} {user asset : Address}
variable {amount cap remaining : ℤ} {v : TierVault} {value : Value} {cs : List World.Invocation}

def shown (v : TierVault) (user asset : Address) : Value :=
  .position (v.balance user asset) (v.sharesOf user asset) (v.lockUntil (user, asset))

theorem ask_eq {callee : Address} {q : Query} {reply : Reply} (hv : w.vaults callee = some v)
    (h : v.step env (.query q) = .ok (v, reply)) : World.ask env w callee q = .ok reply.value := by
  rw [World.ask, hv, expect_some, ok_bind, h]
  rfl

theorem position_eq (hw : D.Wired w) (hv : w.vaults (D.vault tier) = some v) :
    VaultRouter.position D.router env w user tier asset = .ok (shown v user asset) := by
  obtain ⟨t, ht, htier⟩ := hw.only _ v hv
  obtain rfl : tier = t := vault_inj.mp ht
  simp only [VaultRouter.position, hw.vaultAddr, ok_bind, ask_eq hv (TierVault.step_balance _ v user asset),
    ask_eq hv (TierVault.step_shares _ v user asset), ask_eq hv (TierVault.step_lockUntil _ v user asset),
    Value.asI128, Value.asU32]
  -- Flex is not asked for a lock, and has none
  split
  · next hflex =>
    subst hflex
    cases v <;> cases htier
    rfl
  · rfl

theorem Fresh.balanceAt (hf : D.Fresh w) (t : Tier) (user asset : Address) :
    w.balanceAt (D.vault t) user asset = 0 := by
  obtain ⟨v, hv⟩ := hf.vault t
  obtain ⟨_, _, hinit, _⟩ := hf.only _ v hv
  have hempty : v.balances = .empty := congrArg Book.principal (TierVault.initialised_book hinit)
  rw [World.balanceAt, hv]
  simp only [Option.map_some, Option.getD_some, TierVault.balance, hempty]
  exact Store.getD_empty _ _

/-- In every state that a run from a fresh deployment reaches, `position` answers. The principal is the sum of the
calls on the position that went through, it is not negative, and there are shares exactly when there is principal. -/
theorem run_position (hf : D.Fresh w) (hg : D.Guards rule) (hcs : ∀ c ∈ cs, D.Admits c) (env : Env)
    (user : Address) (tier : Tier) (asset : Address) : ∃ principal shares lockUntil,
    World.exec rule D.router (run (World.exec rule D.router) w cs) (env, .router (.position user tier asset)) =
        .ok (run (World.exec rule D.router) w cs, ⟨.position principal shares lockUntil, []⟩) ∧
      principal = net rule D w cs tier user asset ∧
      0 ≤ principal ∧ (0 < shares ↔ 0 < principal) ∧ (tier = .flex → lockUntil = 0) := by
  have hw : D.Wired (run (World.exec rule D.router) w cs) := run_wired hf.wired hg hcs
  obtain ⟨v, hv⟩ := hw.vault tier
  have hcoh : v.book.Coherent := hw.coherent _ v hv
  refine ⟨v.balance user asset, v.sharesOf user asset, v.lockUntil (user, asset), ?_, ?_,
    hcoh.principal_nonneg (user, asset), hcoh.shares_pos_iff (user, asset), ?_⟩
  · rw [World.exec, VaultRouter.step, position_eq hw hv]
    rfl
  · have hsum := run_balanceAt hf.wired hg hcs tier user asset
    rw [hf.balanceAt, zero_add, World.balanceAt, hv] at hsum
    exact hsum
  · rintro rfl
    obtain ⟨t, ht, htier⟩ := hw.only _ v hv
    obtain rfl : Tier.flex = t := vault_inj.mp ht
    cases v <;> cases htier
    rfl

/-- Account 8's position after the two deposits. -/
theorem run_position_harness : ∃ principal shares lockUntil,
    World.exec payoutsRule harness.router twoDepositors (signed 2 (.position (.account 8) .l3 usdc)) =
        .ok (twoDepositors, ⟨.position principal shares lockUntil, []⟩) ∧
      principal = net payoutsRule harness harnessWorld depositsRun .l3 (.account 8) usdc ∧
      0 ≤ principal ∧ (0 < shares ↔ 0 < principal) ∧ (Tier.l3 = .flex → lockUntil = 0) :=
  run_position harness_fresh (guards_payouts _) admits_depositsRun _ _ _ _

/-- What `vault_capacity` promises of the deposits that follow: one that goes through fits into what remains and
lowers it by its amount, and the cap stops exactly those that do not fit. -/
structure Bounds (D : Deployment) (rule : TokenRule) (w : World) (tier : Tier) (cap remaining : ℤ) : Prop where
  fits : ∀ env user asset amount r,
    World.exec rule D.router w (env, .router (.deposit user tier asset amount)) = .ok r → amount ≤ remaining
  lowers : ∀ env user asset amount r, VaultRouter.deposit rule D.router env w user tier asset amount = .ok r →
    ∀ env', VaultRouter.vaultCapacity D.router env' r.1 tier = .ok (.capacity cap (remaining - amount))
  stops : ∀ env user asset amount, World.exec rule D.router w (env, .router (.deposit user tier asset amount)) =
      .error VaultRouter.Error.depositCapExceeded.fault ↔
    VaultRouter.Open w env user asset ∧ VaultRouter.minDeposit tier ≤ amount ∧
      rule.Allows (env.calledBy D.router) user ∧ amount ≤ w.tokens asset user ∧ remaining < amount ∧
      ∃ v, w.vaults (D.vault tier) = some v ∧ InI128 (v.totalBalance + amount)

theorem ask_eq_ok {callee : Address} {q : Query} (hv : w.vaults callee = some v) :
    World.ask env w callee q = .ok value ↔ ∃ r, v.step env (.query q) = .ok r ∧ r.2.value = value := by
  rw [World.ask, hv, expect_some, ok_bind]
  simp only [bind_eq_ok, pure_eq_ok]

/-- VaultFlex has no `max_tvl`, so its capacity is never answered. -/
theorem vaultCapacity_flex {s : VaultFlex.State} (hw : D.Wired w) (hv : w.vaults (D.vault tier) = some (.flex s)) :
    VaultRouter.vaultCapacity D.router env w tier = .error .missingFunction := by
  rw [VaultRouter.vaultCapacity, hw.vaultAddr, ok_bind, World.ask, hv, expect_some, ok_bind]
  rfl

theorem vaultCapacity_eq_ok {s : Locked.State} (hw : D.Wired w) (hv : w.vaults (D.vault tier) = some v)
    (hs : v.core = some s) : VaultRouter.vaultCapacity D.router env w tier = .ok value ↔
      InI128 (Locked.maxTvl s - v.totalBalance) ∧
        value = .capacity (Locked.maxTvl s) (max (Locked.maxTvl s - v.totalBalance) 0) := by
  have hcap := ask_eq hv (TierVault.step_maxTvl (env.calledBy D.router) hs)
  rw [VaultRouter.vaultCapacity, hw.vaultAddr, ok_bind, hcap, ok_bind, Value.asI128, pure_bind]
  simp only [bind_eq_ok, ask_eq_ok hv, TierVault.step_remainingCapacity hs, Value.asI128_eq_ok, pure_eq_ok]
  constructor
  · rintro ⟨_, ⟨_, ⟨hin, rfl⟩, rfl⟩, remaining, heq, rfl⟩
    obtain rfl := Value.i128.inj heq
    exact ⟨hin, rfl⟩
  · rintro ⟨hin, rfl⟩
    exact ⟨_, ⟨_, ⟨hin, rfl⟩, rfl⟩, _, rfl, rfl⟩

theorem deposit_ran {r : World × Reply} (hw : D.Wired w)
    (h : VaultRouter.deposit rule D.router env w user tier asset amount = .ok r) :
    ∃ v v' reply, Ran D (env.calledBy D.router) w r.1 tier (.deposit user asset amount) v v' reply := by
  have hstep : VaultRouter.step rule D.router env w (.deposit user tier asset amount) = .ok r := h
  exact ran_of_forwarded hw (by simp [TierVault.IsOperation]) (VaultRouter.step_forwarded rfl hstep).1

/-- A deposit leaves the cap, and adds its amount to what counts towards it. -/
theorem deposit_core {r : World × Reply} {s : Locked.State} (hw : D.Wired w)
    (hv : w.vaults (D.vault tier) = some v) (hs : v.core = some s)
    (h : VaultRouter.deposit rule D.router env w user tier asset amount = .ok r) :
    0 < amount ∧ v.totalBalance + amount ≤ Locked.maxTvl s ∧ ∃ v' s', r.1.vaults (D.vault tier) = some v' ∧
      v'.core = some s' ∧ Locked.maxTvl s' = Locked.maxTvl s ∧ v'.totalBalance = v.totalBalance + amount := by
  obtain ⟨x, v', reply, hran⟩ := deposit_ran hw h
  obtain rfl : v = x := Option.some.inj (hv.symm.trans hran.found)
  have hmin : v.minDeposit ≤ amount := by
    cases hran.outcome with
    | deposit _ _ _ _ hmin => exact hmin
    | other _ _ _ _ hno => exact absurd rfl (hno _ _ _)
  have h0 : 0 < amount := v.minDeposit_pos.trans_le hmin
  have hauth := hw.adminAuthorized hv env
  obtain ⟨⟨_, hroom, _⟩, heq⟩ := (TierVault.deposit_iff hauth h0.le).mp hran.step
  obtain ⟨rfl, _⟩ := Prod.mk.inj heq
  obtain ⟨p, hp⟩ := TierVault.exists_params hs
  have hcore : (v.withDeposit (env.calledBy D.router).ledger (user, asset) amount).core =
      some (s.withDeposit p (env.calledBy D.router).ledger (user, asset) amount (v.earned amount)) := by
    cases v <;> cases hs <;> cases hp <;> rfl
  refine ⟨h0, hroom s hs, _, _, ?_, hcore, ?_, ?_⟩
  · rw [hran.vaults, Function.update_self]
  · simp only [Locked.maxTvl, Locked.State.withDeposit, Option.map_map]
    rfl
  · exact (TierVault.withDeposit_credited (hw.admin _ v hv) _ _ _).totalBalance

theorem deposit_wired {r : World × Reply} (hw : D.Wired w)
    (h : VaultRouter.deposit rule D.router env w user tier asset amount = .ok r) : D.Wired r.1 := by
  obtain ⟨v, v', reply, hran⟩ := deposit_ran hw h
  have hstep : VaultRouter.step rule D.router env w (.deposit user tier asset amount) = .ok r := h
  exact hran.wired hw (router_effect hw hstep).2

theorem transfer_codeless (rule : TokenRule) (env : Env) (t : Tokens) (asset src dst : Address) (x : ℤ) :
    Codeless (Tokens.transfer rule env t asset src dst x) :=
  .bind (.of_failIf rfl) fun _ _ => .bind (.of_failIf rfl) fun _ _ => .bind (.of_failIf rfl) fun _ _ => .of_ok rfl

/-- Where the token refuses without a code, the code of the cap comes from the vault's check of it. -/
theorem cause_depositCapExceeded
    (h : D.Cause rule w env (.deposit user tier asset amount) VaultRouter.Error.depositCapExceeded.code) :
    VaultRouter.Open w env user asset ∧ VaultRouter.minDeposit tier ≤ amount ∧
      rule.Allows (env.calledBy D.router) user ∧ amount ≤ w.tokens asset user ∧
      ∃ v, w.vaults (D.vault tier) = some v ∧ v.Full amount := by
  generalize hcode : VaultRouter.Error.depositCapExceeded.code = code at h
  cases h with
  | depositCapExceeded _ _ _ _ hopen hmin _ hpaid v hv hfull =>
    obtain ⟨hallow, _, hfunds, _⟩ := Tokens.transfer_eq_ok.mp hpaid
    exact ⟨hopen, hmin, hallow, hfunds, v, hv, hfull⟩
  | paymentRefused _ _ _ _ _ _ _ hrefused => exact absurd hrefused ((transfer_codeless _ _ _ _ _ _ _).ne code)
  | protocolPaused => cases hcode
  | assetNotAllowed => cases hcode
  | belowMinDeposit => cases hcode

theorem bounds_of_capacity (hw : D.Wired w)
    (h : VaultRouter.vaultCapacity D.router env w tier = .ok (.capacity cap remaining)) :
    D.Bounds rule w tier cap remaining := by
  obtain ⟨v, hv⟩ := hw.vault tier
  obtain ⟨s, hs⟩ : ∃ s, v.core = some s := by
    cases v with
    | flex s => cases (vaultCapacity_flex hw hv).symm.trans h
    | _ => exact ⟨_, rfl⟩
  obtain ⟨hin, heq⟩ := (vaultCapacity_eq_ok hw hv hs).mp h
  obtain ⟨rfl, rfl⟩ := Value.capacity.inj heq
  constructor
  · intro env' user asset amount r hr
    obtain ⟨_, hroom, _⟩ := deposit_core hw hv hs hr
    rw [le_max_iff]
    omega
  · intro env' user asset amount r hr env''
    obtain ⟨h0, hroom, v', s', hv', hs', hcap, htotal⟩ := deposit_core hw hv hs hr
    have hw' : D.Wired r.1 := deposit_wired hw hr
    apply (vaultCapacity_eq_ok hw' hv' hs').mpr
    rw [hcap, htotal]
    constructor
    · unfold InI128 i128Min i128Max at *
      have hpos : 0 ≤ Locked.maxTvl s - (v.totalBalance + amount) := by omega
      omega
    · rw [max_eq_left (by omega), max_eq_left (by omega), sub_sub]
  · intro env' user asset amount
    have hfull : 0 < amount → (v.Full amount ↔
        InI128 (v.totalBalance + amount) ∧ max (Locked.maxTvl s - v.totalBalance) 0 < amount) :=
      TierVault.full_iff hs
    have hcode : World.exec rule D.router w (env', .router (.deposit user tier asset amount)) =
        .error VaultRouter.Error.depositCapExceeded.fault ↔ _ := deposit_eq_error hw hv
    rw [hcode]
    constructor
    · intro hcause
      obtain ⟨hopen, hmin, hallow, hfunds, x, hx, hx'⟩ := cause_depositCapExceeded hcause
      obtain rfl : v = x := Option.some.inj (hv.symm.trans hx)
      obtain ⟨hrange, hlt⟩ := (hfull ((VaultRouter.minDeposit_pos tier).trans_le hmin)).mp hx'
      exact ⟨hopen, hmin, hallow, hfunds, hlt, v, hv, hrange⟩
    · rintro ⟨hopen, hmin, hallow, hfunds, hlt, x, hx, hrange⟩
      obtain rfl : v = x := Option.some.inj (hv.symm.trans hx)
      have h0 : 0 < amount := (VaultRouter.minDeposit_pos tier).trans_le hmin
      exact .depositCapExceeded user tier asset amount hopen hmin _
        (Tokens.transfer_eq_ok.mpr ⟨hallow, h0.le, hfunds, rfl⟩) v hv ((hfull h0).mpr ⟨hrange, hlt⟩)

/-- In every state that a run from a fresh deployment reaches, the capacity of a locked tier is answered unless the
difference leaves the range, and it bounds the deposits that follow. VaultFlex's is never answered. -/
theorem run_capacity (hf : D.Fresh w) (hg : D.Guards rule) (hcs : ∀ c ∈ cs, D.Admits c) (env : Env) :
    (∀ tier cap remaining, VaultRouter.vaultCapacity D.router env (run (World.exec rule D.router) w cs) tier =
        .ok (.capacity cap remaining) → D.Bounds rule (run (World.exec rule D.router) w cs) tier cap remaining) ∧
      (∀ tier s, ((run (World.exec rule D.router) w cs).vaults (D.vault tier)).bind TierVault.core = some s →
        InI128 (Locked.maxTvl s - Locked.totalBalance s) →
        VaultRouter.vaultCapacity D.router env (run (World.exec rule D.router) w cs) tier =
          .ok (.capacity (Locked.maxTvl s) (max (Locked.maxTvl s - Locked.totalBalance s) 0))) ∧
      VaultRouter.vaultCapacity D.router env (run (World.exec rule D.router) w cs) .flex =
        .error .missingFunction := by
  have hw : D.Wired (run (World.exec rule D.router) w cs) := run_wired hf.wired hg hcs
  refine ⟨fun tier cap remaining h => bounds_of_capacity hw h, ?_, ?_⟩
  · intro tier s hcore hin
    obtain ⟨v, hv, hs⟩ := Option.bind_eq_some_iff.mp hcore
    apply (vaultCapacity_eq_ok hw hv hs).mpr
    rw [TierVault.totalBalance_of_core hs]
    exact ⟨hin, rfl⟩
  · obtain ⟨v, hv⟩ := hw.vault .flex
    obtain ⟨t, ht, htier⟩ := hw.only _ v hv
    obtain rfl : Tier.flex = t := vault_inj.mp ht
    cases v with
    | flex s => exact vaultCapacity_flex hw hv
    | _ => cases htier

/-- What VaultL3's capacity says once the two deposits are in. -/
theorem run_capacity_harness : ∃ cap remaining,
    VaultRouter.vaultCapacity harness.router ⟨[], none, 2⟩ twoDepositors .l3 = .ok (.capacity cap remaining) ∧
      harness.Bounds payoutsRule twoDepositors .l3 cap remaining := by
  obtain ⟨hbounds, _⟩ :=
    run_capacity harness_fresh (guards_payouts fun _ => true) admits_depositsRun ⟨[], none, 2⟩
  exact ⟨_, _, rfl, hbounds .l3 _ _ rfl⟩

end Deployment
end YieldLadder
