import YieldLadder.Router.EndToEnd

/-! # Deposits below a minimum

The router and the vault of the tier check the amount of a deposit each against a table
of its own. No other check of a deposit ends with the fault of these two, so the amounts
that are rejected as below the minimum are the ones below it.
-/
namespace YieldLadder
open Foundation

def VaultFlex.belowMinimum : Fault := .panic "VaultFlex: Deposit amount below minimum requirement of 1 USDC"

/-- The code that the router and the locked vaults share, and the panic of VaultFlex. -/
def Fault.BelowMinimum (e : Fault) : Prop := e = VaultError.belowMinDeposit.fault ∨ e = VaultFlex.belowMinimum

instance (e : Fault) : Decidable e.BelowMinimum := inferInstanceAs (Decidable (_ ∨ _))

theorem not_belowMinimum_of_overflow {α : Type} {x : Except Fault α} (h : FailsOnly (· = .overflow) x) :
    FailsOnly (¬Fault.BelowMinimum ·) x :=
  h.mono fun e he => he ▸ (by decide : ¬Fault.overflow.BelowMinimum)

namespace Locked
variable {p : TierParams} {env : Env} {s : State} {i : Instance} {user asset : Address} {amount : ℤ}

theorem deposit_below (hi : s.inst = some i) (ha : env.Authorized i.admin) (hlt : amount < p.minDeposit) :
    deposit p env s user asset amount = .error VaultError.belowMinDeposit.fault := by
  have hauth : env.requireAuth i.admin = .ok () := Env.requireAuth_eq_ok.mpr ha
  rw [deposit, hi, expect_some, ok_bind, hauth, ok_bind, failIf_of hlt, error_bind]

theorem deposit_fails (hmin : p.minDeposit ≤ amount) :
    FailsOnly (¬Fault.BelowMinimum ·) (deposit p env s user asset amount) := by
  refine .bind (.of_expect (by decide)) fun i _ => ?_
  refine .bind (.of_failIf (by decide)) fun _ _ => ?_
  refine .bind (.of_ok (failIf_of_not (not_lt.mpr hmin))) fun _ _ => ?_
  refine .bind (not_belowMinimum_of_overflow (inI128_fails _)) fun _ _ => ?_
  refine .bind (.of_failIf (by decide)) fun _ _ => not_belowMinimum_of_overflow ?_
  exact .bind (mulFp_fails _ _) fun _ _ => .bind (inI128_fails _) fun _ _ => .bind (inI128_fails _) fun _ _ =>
    .bind (inI128_fails _) fun _ _ => .bind (addU32_fails _ _) fun _ _ => .bind (addU32_fails _ _) fun _ _ =>
    .of_ok rfl

end Locked

namespace VaultFlex
variable {env : Env} {s : State} {i : Instance} {user asset : Address} {amount : ℤ}

theorem deposit_below (hi : s.inst = some i) (ha : env.Authorized i.admin) (hlt : amount < SCALING_FACTOR) :
    deposit env s user asset amount = .error belowMinimum := by
  have hauth : env.requireAuth i.admin = .ok () := Env.requireAuth_eq_ok.mpr ha
  rw [deposit, hi, expect_some, ok_bind, hauth, ok_bind, failIf_of hlt, error_bind, belowMinimum]

theorem recordDepositCheckpoint_fails {checkpoint : Store Key ℕ} :
    FailsOnly (¬Fault.BelowMinimum ·) (recordDepositCheckpoint env checkpoint user asset) := by
  intro e h
  unfold recordDepositCheckpoint at h
  split at h <;> cases h
  decide

theorem deposit_fails (hmin : SCALING_FACTOR ≤ amount) :
    FailsOnly (¬Fault.BelowMinimum ·) (deposit env s user asset amount) := by
  refine .bind (.of_expect (by decide)) fun i _ => ?_
  refine .bind (.of_failIf (by decide)) fun _ _ => ?_
  refine .bind (.of_ok (failIf_of_not (not_lt.mpr hmin))) fun _ _ => ?_
  refine .bind (not_belowMinimum_of_overflow (inI128_fails _)) fun _ _ => ?_
  refine .bind (not_belowMinimum_of_overflow (inI128_fails _)) fun _ _ => ?_
  refine .bind (not_belowMinimum_of_overflow (inI128_fails _)) fun _ _ => ?_
  refine .bind (not_belowMinimum_of_overflow (inI128_fails _)) fun _ _ => ?_
  exact .bind recordDepositCheckpoint_fails fun _ _ => .of_ok rfl

end VaultFlex

namespace TierVault
variable {env : Env} {v : TierVault} {user asset : Address} {amount : ℤ}

/-- What the vault's check of its minimum ends with. -/
def belowMinimum : TierVault → Fault
  | .flex _ => VaultFlex.belowMinimum
  | .l3 _ => VaultError.belowMinDeposit.fault
  | .l6 _ => VaultError.belowMinDeposit.fault
  | .l12 _ => VaultError.belowMinDeposit.fault

theorem belowMinimum_of_core {s : Locked.State} (hs : v.core = some s) :
    v.belowMinimum = VaultError.belowMinDeposit.fault := by
  cases v <;> cases hs <;> rfl

theorem belowMinimum_belowMinimum (v : TierVault) : v.belowMinimum.BelowMinimum := by
  rcases v.flex_or_locked with ⟨s, rfl⟩ | ⟨p, s, hp, hs⟩
  · exact .inr rfl
  · exact .inl (belowMinimum_of_core hs)

theorem deposit_fails (hmin : v.minDeposit ≤ amount) :
    FailsOnly (¬Fault.BelowMinimum ·) (v.step env (.deposit user asset amount)) := by
  rcases v.flex_or_locked with ⟨s, rfl⟩ | ⟨p, s, hp, hs⟩
  · exact .bind (VaultFlex.deposit_fails hmin) fun _ _ => .of_ok rfl
  · rw [minDeposit_of_params hp] at hmin
    rw [step_eq_operate hp hs (by simp) (by simp [AboutFlags])]
    exact .bind (Locked.deposit_fails hmin) fun _ _ => .of_ok rfl

theorem deposit_below (ha : v.AdminAuthorized env) (hlt : amount < v.minDeposit) :
    v.step env (.deposit user asset amount) = .error v.belowMinimum := by
  rcases v.flex_or_locked with ⟨s, rfl⟩ | ⟨p, s, hp, hs⟩
  · obtain ⟨a, hadmin, ha⟩ := ha
    obtain ⟨i, hi, rfl⟩ := Option.map_eq_some_iff.mp hadmin
    rw [step, VaultFlex.step, VaultFlex.deposit_below hi ha hlt, error_bind, belowMinimum]
  · obtain ⟨i, hi, ha⟩ := ha.of_core hs
    rw [minDeposit_of_params hp] at hlt
    rw [step_eq_operate hp hs (by simp) (by simp [AboutFlags]), Locked.operate, Locked.deposit_below hi ha hlt,
      error_bind, belowMinimum_of_core hs]

theorem deposit_eq_belowMinimum (ha : v.AdminAuthorized env) :
    v.step env (.deposit user asset amount) = .error v.belowMinimum ↔ amount < v.minDeposit := by
  constructor
  · intro h
    by_contra hmin
    exact deposit_fails (not_lt.mp hmin) _ h v.belowMinimum_belowMinimum
  · exact deposit_below ha

end TierVault

namespace VaultRouter
variable {w : World} {env : Env} {user asset : Address}

/-- What the router asks of a deposit before it looks at the amount. -/
structure Open (w : World) (env : Env) (user asset : Address) : Prop where
  running : isPaused w.router = false
  signed : env.Authorized user
  allowed : w.router.allowlist.isAssetAllowed asset = true

theorem Open.not_paused (h : Open w env user asset) : requireNotPaused w.router = .ok () :=
  failIf_of_not (by simp [h.running])

theorem Open.auth (h : Open w env user asset) : env.requireAuth user = .ok () :=
  Env.requireAuth_eq_ok.mpr h.signed

theorem Open.listed (h : Open w env user asset) :
    failIf (w.router.allowlist.isAssetAllowed asset = false) Error.assetNotAllowed.fault = .ok () :=
  failIf_of_not (by simp [h.allowed])

end VaultRouter

namespace Deployment
variable {D : Deployment} {rule : TokenRule} {w : World} {env : Env} {user asset : Address} {tier : Tier}
variable {amount : ℤ}

theorem deposit_fails (hw : D.Wired w) (hopen : VaultRouter.Open w env user asset)
    (hmin : VaultRouter.minDeposit tier ≤ amount) :
    FailsOnly (¬Fault.BelowMinimum ·) (VaultRouter.deposit rule D.router env w user tier asset amount) := by
  refine .bind (.of_ok hopen.not_paused) fun _ _ => ?_
  refine .bind (.of_ok hopen.auth) fun _ _ => ?_
  refine .bind (.of_ok hopen.listed) fun _ _ => ?_
  refine .bind (.of_ok (failIf_of_not (not_lt.mpr hmin))) fun _ _ => ?_
  refine .bind (.of_ok (hw.vaultAddr tier)) fun vault hvault => ?_
  obtain rfl := hw.vaultAddr_ok hvault
  refine .bind ?_ fun tokens _ => ?_
  · -- The transfer faults are the token's own.
    exact .bind (.of_failIf (by decide)) fun _ _ => .bind (.of_failIf (by decide)) fun _ _ =>
      .bind (.of_failIf (by decide)) fun _ _ => .of_ok rfl
  · refine .bind (.bind (.of_expect (by decide)) fun v hv => ?_) fun _ _ => .of_ok rfl
    have hfound : w.vaults (D.vault tier) = some v := expect_eq_ok.mp hv
    obtain ⟨t, ht, htier⟩ := hw.only _ v hfound
    obtain rfl : tier = t := vault_inj.mp ht
    have hvmin : v.minDeposit ≤ amount := v.minDeposit_tier ▸ htier ▸ hmin
    exact .bind (TierVault.deposit_fails hvmin) fun _ _ => .of_ok rfl

theorem deposit_below (hopen : VaultRouter.Open w env user asset) (hlt : amount < VaultRouter.minDeposit tier) :
    VaultRouter.deposit rule D.router env w user tier asset amount =
      .error VaultRouter.Error.belowMinDeposit.fault := by
  rw [VaultRouter.deposit, hopen.not_paused, ok_bind, hopen.auth, ok_bind, hopen.listed, ok_bind, failIf_of hlt,
    error_bind]

/-- In a wired deployment the router rejects an amount as below the minimum exactly when it is, unless something
before the amount stops it. -/
theorem deposit_eq_belowMinDeposit (hw : D.Wired w) (hopen : VaultRouter.Open w env user asset) :
    VaultRouter.deposit rule D.router env w user tier asset amount =
      .error VaultRouter.Error.belowMinDeposit.fault ↔ amount < VaultRouter.minDeposit tier := by
  constructor
  · intro h
    by_contra hmin
    exact deposit_fails hw hopen (not_lt.mp hmin) _ h (.inl rfl)
  · exact deposit_below hopen

end Deployment
end YieldLadder
