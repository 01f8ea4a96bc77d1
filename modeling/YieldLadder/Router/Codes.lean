import YieldLadder.Router.Pause
import YieldLadder.Router.Payout
import YieldLadder.Vault.Codes

/-! # What a code of the router says about the deployment

The router, the locked vaults and the token number their errors apart from each other, and
the same number means something in each. A wired router asks the vault of the tier as its
admin, so a code that comes out of an entry point was raised by one check on the way there
or by the token, whatever token that is.
-/
namespace YieldLadder
open Foundation

/-- The vault answers the exit with a payout, which its router then asks the token for. -/
def TierVault.Owes (v : TierVault) (env : Env) (call : VaultCall) (p : ℤ) : Prop :=
  ∃ r, v.step env call = .ok r ∧ r.2.value = .i128 p ∧ 0 < p

namespace Deployment

/-- What ended the call, by the code it raised. Deposits, withdrawals and early exits ask the circuit
breaker before anything else, `relock` never; a code of the token leaves the router as it is. -/
inductive Cause (D : Deployment) (token : TokenContract) (w : World) (env : Env) : VaultRouter.Call → ℕ → Prop
  | protocolPaused (call : VaultRouter.Call) (hgate : call.Gated) (hp : VaultRouter.isPaused w.router = true) :
      Cause D token w env call VaultRouter.Error.protocolPaused.code
  | assetNotAllowed (user : Address) (tier : Tier) (asset : Address) (amount : ℤ)
      (hrun : VaultRouter.isPaused w.router = false) (huser : env.Authorized user)
      (h : w.router.allowlist.isAssetAllowed asset = false) :
      Cause D token w env (.deposit user tier asset amount) VaultRouter.Error.assetNotAllowed.code
  | belowMinDeposit (user : Address) (tier : Tier) (asset : Address) (amount : ℤ)
      (hopen : VaultRouter.Open w env user asset) (h : amount < VaultRouter.minDeposit tier) :
      Cause D token w env (.deposit user tier asset amount) VaultRouter.Error.belowMinDeposit.code
  | paymentRefused (user : Address) (tier : Tier) (asset : Address) (amount : ℤ) (code : ℕ)
      (hopen : VaultRouter.Open w env user asset) (hmin : VaultRouter.minDeposit tier ≤ amount)
      (h : token.transfer (env.calledBy D.router) w.tokens asset user (D.vault tier) amount = .error (.error code)) :
      Cause D token w env (.deposit user tier asset amount) code
  | depositCapExceeded (user : Address) (tier : Tier) (asset : Address) (amount : ℤ)
      (hopen : VaultRouter.Open w env user asset) (hmin : VaultRouter.minDeposit tier ≤ amount) (tokens : Tokens)
      (hpaid : token.transfer (env.calledBy D.router) w.tokens asset user (D.vault tier) amount = .ok tokens)
      (v : TierVault) (hv : w.vaults (D.vault tier) = some v) (h : v.Full amount) :
      Cause D token w env (.deposit user tier asset amount) VaultRouter.Error.depositCapExceeded.code
  | lockNotExpired (user : Address) (tier : Tier) (asset : Address) (amount : ℤ)
      (hrun : VaultRouter.isPaused w.router = false) (huser : env.Authorized user)
      (v : TierVault) (hv : w.vaults (D.vault tier) = some v) (h : v.StillLocked env.ledger user asset) :
      Cause D token w env (.withdraw user tier asset amount) VaultError.lockNotExpired.code
  | exceedsBalance (user : Address) (tier : Tier) (asset : Address) (amount : ℤ)
      (hrun : VaultRouter.isPaused w.router = false) (huser : env.Authorized user)
      (v : TierVault) (hv : w.vaults (D.vault tier) = some v) (hlock : ¬v.StillLocked env.ledger user asset)
      (h : v.Short user asset amount) :
      Cause D token w env (.withdraw user tier asset amount) VaultError.amountExceedsBalance.code
  | exceedsBalanceEarly (user : Address) (tier : Tier) (asset : Address) (amount : ℤ)
      (hrun : VaultRouter.isPaused w.router = false) (huser : env.Authorized user)
      (v : TierVault) (hv : w.vaults (D.vault tier) = some v) (h : v.Short user asset amount) :
      Cause D token w env (.earlyExit user tier asset amount) VaultError.amountExceedsBalance.code
  | withdrawalRefused (user : Address) (tier : Tier) (asset : Address) (amount p : ℤ) (code : ℕ)
      (hrun : VaultRouter.isPaused w.router = false) (huser : env.Authorized user) (v : TierVault)
      (hv : w.vaults (D.vault tier) = some v) (hp : v.Owes (env.calledBy D.router) (.withdraw user asset amount) p)
      (h : token.transfer (env.calledBy D.router) w.tokens asset (D.vault tier) user p = .error (.error code)) :
      Cause D token w env (.withdraw user tier asset amount) code
  | earlyExitRefused (user : Address) (tier : Tier) (asset : Address) (amount p : ℤ) (code : ℕ)
      (hrun : VaultRouter.isPaused w.router = false) (huser : env.Authorized user) (v : TierVault)
      (hv : w.vaults (D.vault tier) = some v) (hp : v.Owes (env.calledBy D.router) (.earlyExit user asset amount) p)
      (h : token.transfer (env.calledBy D.router) w.tokens asset (D.vault tier) user p = .error (.error code)) :
      Cause D token w env (.earlyExit user tier asset amount) code
  | notYetMatured (user : Address) (tier : Tier) (asset : Address) (huser : env.Authorized user)
      (v : TierVault) (hv : w.vaults (D.vault tier) = some v)
      (h : env.ledger < v.locks.getD (user, asset) 0) :
      Cause D token w env (.relock user tier asset) VaultError.notYetMatured.code

variable {D : Deployment} {rule : TokenRule} {token : TokenContract} {w : World} {env : Env} {tier : Tier}
variable {user asset : Address} {amount : ℤ} {call : VaultRouter.Call} {code : ℕ} {v : TierVault}

theorem invoke_eq_error {vaultCall : VaultCall} {callee : Address} (hv : w.vaults callee = some v) {e : Fault} :
    World.invoke env w callee vaultCall = .error e ↔ v.step env vaultCall = .error e := by
  rw [World.invoke, hv, expect_some, ok_bind]
  exact bind_eq_error_of_ok fun _ => ⟨_, rfl⟩

theorem deposit_eq_error (hw : D.Wired w) (hv : w.vaults (D.vault tier) = some v) :
    VaultRouter.deposit token D.router env w user tier asset amount = .error (.error code) ↔
      D.Cause token w env (.deposit user tier asset amount) code := by
  obtain ⟨t, ht, htier⟩ := hw.only _ v hv
  obtain rfl : tier = t := vault_inj.mp ht
  have hmin : VaultRouter.minDeposit tier = v.minDeposit := htier ▸ v.minDeposit_tier
  have hvault : ∀ tokens : Tokens, v.minDeposit ≤ amount →
      (World.invoke (env.calledBy D.router) { w with tokens } (D.vault tier) (.deposit user asset amount) =
        .error (.error code) ↔ v.Full amount ∧ VaultError.depositCapExceeded.code = code) := by
    intro tokens hle
    rw [invoke_eq_error (w := { w with tokens }) hv]
    exact TierVault.deposit_eq_error (hw.adminAuthorized hv env) hle
  -- what the router makes of the vault's answer carries no code
  have hforward : ∀ (tokens : Tokens) (f : World × Reply → Except Fault (World × Reply)),
      (∀ q, ∃ r, f q = .ok r) → v.minDeposit ≤ amount →
      (World.invoke (env.calledBy D.router) { w with tokens } (D.vault tier) (.deposit user asset amount) >>= f =
        .error (.error code) ↔ v.Full amount ∧ VaultError.depositCapExceeded.code = code) :=
    fun tokens _ hf hle => (bind_eq_error_of_ok hf).trans (hvault tokens hle)
  have hauth : Codeless (env.requireAuth user) := requireAuth_codeless env user
  simp only [VaultRouter.deposit, VaultRouter.requireNotPaused, failIf_bind_eq_error, hauth.bind_eq_error,
    hw.vaultAddr, ok_bind, VaultRouter.Error.fault, Fault.error.injEq, Env.requireAuth_eq_ok, Bool.not_eq_true,
    Bool.not_eq_false, not_lt]
  constructor
  · rintro (⟨hp, rfl⟩ | ⟨hrun, _, huser, ⟨hlisted, rfl⟩ | ⟨hlisted, ⟨hlt, rfl⟩ | ⟨hle, h⟩⟩⟩)
    · exact .protocolPaused _ trivial hp
    · exact .assetNotAllowed user tier asset amount hrun huser hlisted
    · exact .belowMinDeposit user tier asset amount ⟨hrun, huser, hlisted⟩ hlt
    · cases htransfer : token.transfer (env.calledBy D.router) w.tokens asset user (D.vault tier) amount with
      | error e =>
        rw [htransfer] at h
        cases h
        exact .paymentRefused user tier asset amount code ⟨hrun, huser, hlisted⟩ hle htransfer
      | ok tokens =>
        rw [htransfer] at h
        obtain ⟨hfull, rfl⟩ := (hforward tokens _ (fun _ => ⟨_, rfl⟩) (hmin ▸ hle)).mp h
        exact .depositCapExceeded user tier asset amount ⟨hrun, huser, hlisted⟩ hle tokens htransfer v hv hfull
  · intro h
    cases h with
    | protocolPaused _ _ hp => exact .inl ⟨hp, rfl⟩
    | assetNotAllowed _ _ _ _ hrun huser hlisted => exact .inr ⟨hrun, (), huser, .inl ⟨hlisted, rfl⟩⟩
    | belowMinDeposit _ _ _ _ hopen hlt =>
      exact .inr ⟨hopen.running, (), hopen.signed, .inr ⟨hopen.allowed, .inl ⟨hlt, rfl⟩⟩⟩
    | paymentRefused _ _ _ _ _ hopen hle htransfer =>
      refine .inr ⟨hopen.running, (), hopen.signed, .inr ⟨hopen.allowed, .inr ⟨hle, ?_⟩⟩⟩
      rw [htransfer]
      rfl
    | depositCapExceeded _ _ _ _ hopen hle tokens htransfer x hx hfull =>
      obtain rfl : v = x := Option.some.inj (hv.symm.trans hx)
      refine .inr ⟨hopen.running, (), hopen.signed, .inr ⟨hopen.allowed, .inr ⟨hle, ?_⟩⟩⟩
      rw [htransfer]
      exact (hforward tokens _ (fun _ => ⟨_, rfl⟩) (hmin ▸ hle)).mpr ⟨hfull, rfl⟩

theorem asI128_codeless (value : Value) : Codeless value.asI128 := by
  intro e he
  cases value <;> cases he <;> rfl

theorem asU32_codeless (value : Value) : Codeless value.asU32 := by
  intro e he
  cases value <;> cases he <;> rfl

/-- Past the breaker and the signature, an exit ends with a code where its vault does, or where the token refuses
what the vault owes. -/
theorem payOut_eq_error (hw : D.Wired w) (hv : w.vaults (D.vault tier) = some v) {vaultCall : VaultCall} :
    VaultRouter.payOut token D.router env w user tier asset vaultCall = .error (.error code) ↔
      VaultRouter.isPaused w.router = true ∧ VaultRouter.Error.protocolPaused.code = code ∨
        VaultRouter.isPaused w.router = false ∧ env.Authorized user ∧
          (v.step (env.calledBy D.router) vaultCall = .error (.error code) ∨
            ∃ p, v.Owes (env.calledBy D.router) vaultCall p ∧
              token.transfer (env.calledBy D.router) w.tokens asset (D.vault tier) user p = .error (.error code)) := by
  have hauth : Codeless (env.requireAuth user) := requireAuth_codeless env user
  simp only [VaultRouter.payOut, VaultRouter.requireNotPaused, failIf_bind_eq_error, hauth.bind_eq_error,
    hw.vaultAddr, ok_bind, VaultRouter.Error.fault, Fault.error.injEq, Env.requireAuth_eq_ok, Bool.not_eq_true,
    exists_const]
  refine or_congr_right (and_congr_right fun _ => and_congr_right fun _ => ?_)
  rw [World.invoke, hv, expect_some, ok_bind]
  cases hs : v.step (env.calledBy D.router) vaultCall with
  | error e =>
    have hnone : ¬∃ p, v.Owes (env.calledBy D.router) vaultCall p ∧
        token.transfer (env.calledBy D.router) w.tokens asset (D.vault tier) user p = .error (.error code) := by
      rintro ⟨p, ⟨r, hr, _⟩, _⟩
      cases hs.symm.trans hr
    rw [or_iff_left hnone]
    constructor <;> rintro ⟨⟩ <;> rfl
  | ok q =>
    have howes : ∀ p, v.Owes (env.calledBy D.router) vaultCall p ↔ q.2.value = .i128 p ∧ 0 < p := by
      intro p
      refine ⟨?_, fun h => ⟨q, hs, h⟩⟩
      rintro ⟨r, hr, h⟩
      cases hs.symm.trans hr
      exact h
    have hvalue : Codeless q.2.value.asI128 := asI128_codeless _
    simp only [ok_bind, pure_bind, hvalue.bind_eq_error, Value.asI128_eq_ok, reduceCtorEq, false_or, howes]
    refine exists_congr fun p => ?_
    rw [and_assoc, VaultRouter.sendPayout]
    refine and_congr_right fun _ => ?_
    split
    · next hp =>
      rw [and_iff_right hp]
      exact bind_eq_error_of_ok fun _ => ⟨_, rfl⟩
    · next hp => exact iff_of_false (by rintro ⟨⟩) fun h => hp h.1

theorem withdraw_eq_error (hw : D.Wired w) (hv : w.vaults (D.vault tier) = some v) :
    VaultRouter.withdraw token D.router env w user tier asset amount = .error (.error code) ↔
      D.Cause token w env (.withdraw user tier asset amount) code := by
  rw [VaultRouter.withdraw, payOut_eq_error hw hv, TierVault.withdraw_eq_error (hw.adminAuthorized hv env)]
  constructor
  · rintro (⟨hp, rfl⟩ | ⟨hrun, huser, (⟨hlock, rfl⟩ | ⟨hopen, hshort, rfl⟩) | ⟨p, hp, h⟩⟩)
    · exact .protocolPaused _ trivial hp
    · exact .lockNotExpired user tier asset amount hrun huser v hv hlock
    · exact .exceedsBalance user tier asset amount hrun huser v hv hopen hshort
    · exact .withdrawalRefused user tier asset amount p code hrun huser v hv hp h
  · intro h
    cases h with
    | protocolPaused _ _ hp => exact .inl ⟨hp, rfl⟩
    | lockNotExpired _ _ _ _ hrun huser x hx hlock =>
      obtain rfl : v = x := Option.some.inj (hv.symm.trans hx)
      exact .inr ⟨hrun, huser, .inl (.inl ⟨hlock, rfl⟩)⟩
    | exceedsBalance _ _ _ _ hrun huser x hx hopen hshort =>
      obtain rfl : v = x := Option.some.inj (hv.symm.trans hx)
      exact .inr ⟨hrun, huser, .inl (.inr ⟨hopen, hshort, rfl⟩)⟩
    | withdrawalRefused _ _ _ _ p _ hrun huser x hx hp h =>
      obtain rfl : v = x := Option.some.inj (hv.symm.trans hx)
      exact .inr ⟨hrun, huser, .inr ⟨p, hp, h⟩⟩

theorem earlyExit_eq_error (hw : D.Wired w) (hv : w.vaults (D.vault tier) = some v) :
    VaultRouter.earlyExit token D.router env w user tier asset amount = .error (.error code) ↔
      D.Cause token w env (.earlyExit user tier asset amount) code := by
  rw [VaultRouter.earlyExit, payOut_eq_error hw hv, TierVault.earlyExit_eq_error (hw.adminAuthorized hv env)]
  constructor
  · rintro (⟨hp, rfl⟩ | ⟨hrun, huser, ⟨hshort, rfl⟩ | ⟨p, hp, h⟩⟩)
    · exact .protocolPaused _ trivial hp
    · exact .exceedsBalanceEarly user tier asset amount hrun huser v hv hshort
    · exact .earlyExitRefused user tier asset amount p code hrun huser v hv hp h
  · intro h
    cases h with
    | protocolPaused _ _ hp => exact .inl ⟨hp, rfl⟩
    | exceedsBalanceEarly _ _ _ _ hrun huser x hx hshort =>
      obtain rfl : v = x := Option.some.inj (hv.symm.trans hx)
      exact .inr ⟨hrun, huser, .inl ⟨hshort, rfl⟩⟩
    | earlyExitRefused _ _ _ _ p _ hrun huser x hx hp h =>
      obtain rfl : v = x := Option.some.inj (hv.symm.trans hx)
      exact .inr ⟨hrun, huser, .inr ⟨p, hp, h⟩⟩

theorem relock_eq_error (hw : D.Wired w) (hv : w.vaults (D.vault tier) = some v) :
    VaultRouter.relock D.router env w user tier asset = .error (.error code) ↔
      D.Cause token w env (.relock user tier asset) code := by
  have hauth : Codeless (env.requireAuth user) := requireAuth_codeless env user
  have hlocked : env.ledger < v.locks.getD (user, asset) 0 → tier ≠ .flex := by
    rintro hlt rfl
    obtain ⟨t, ht, htier⟩ := hw.only _ v hv
    obtain rfl := vault_inj.mp ht
    cases v with
    | flex s => simp [TierVault.locks] at hlt
    | _ => cases htier
  have hanswer : ∀ q : World × Reply, Codeless (do
      let lock ← q.2.value.asU32
      pure (q.1, (⟨.u32 lock, q.2.events⟩ : Reply))) :=
    fun q => .bind (asU32_codeless _) fun _ _ => .of_ok rfl
  have hstep : World.invoke (env.calledBy D.router) w (D.vault tier) (.relock user asset) =
      .error (.error code) ↔ env.ledger < v.locks.getD (user, asset) 0 ∧ VaultError.notYetMatured.code = code := by
    rw [invoke_eq_error hv]
    exact TierVault.relock_eq_error (hw.adminAuthorized hv env)
  simp only [VaultRouter.relock, hauth.bind_eq_error, hw.vaultAddr, ok_bind, Env.requireAuth_eq_ok, exists_const,
    failIf_bind_eq_error, reduceCtorEq, and_false, false_or]
  constructor
  · rintro ⟨huser, _, h⟩
    cases hinvoke : World.invoke (env.calledBy D.router) w (D.vault tier) (.relock user asset) with
    | ok q =>
      rw [hinvoke] at h
      exact absurd h ((hanswer q).ne code)
    | error e =>
      rw [hinvoke] at h
      cases h
      obtain ⟨hlt, rfl⟩ := hstep.mp hinvoke
      exact .notYetMatured user tier asset huser v hv hlt
  · intro h
    cases h with
    | protocolPaused _ hgate => exact hgate.elim
    | notYetMatured _ _ _ huser x hx hlt =>
      obtain rfl : v = x := Option.some.inj (hv.symm.trans hx)
      refine ⟨huser, hlocked hlt, ?_⟩
      rw [hstep.mpr ⟨hlt, rfl⟩]
      rfl

/-- A user-facing call of a wired router ends with a code exactly when the check that raises it fails, or the token
refuses the call's transfer with it. -/
theorem step_eq_error (hw : D.Wired w) (hc : call.UserFacing) :
    VaultRouter.step token D.router env w call = .error (.error code) ↔ D.Cause token w env call code := by
  cases hc with
  | deposit user tier asset amount =>
    obtain ⟨v, hv⟩ := hw.vault tier
    exact deposit_eq_error hw hv
  | withdraw user tier asset amount =>
    obtain ⟨v, hv⟩ := hw.vault tier
    exact withdraw_eq_error hw hv
  | earlyExit user tier asset amount =>
    obtain ⟨v, hv⟩ := hw.vault tier
    exact earlyExit_eq_error hw hv
  | relock user tier asset =>
    obtain ⟨v, hv⟩ := hw.vault tier
    exact relock_eq_error hw hv

/-- In every state that a run from a fresh deployment reaches, and whatever the token answers there, a user-facing
call ends with a code exactly when the check that raises it fails or the token refuses with it. -/
theorem run_codes (hf : D.Fresh w) (hg : D.Guards rule) {cs : List World.Invocation}
    (hcs : ∀ c ∈ cs, D.Admits c) (hc : call.UserFacing) (token : TokenContract) (env : Env) (code : ℕ) :
    VaultRouter.step token D.router env (run (World.exec rule D.router) w cs) call = .error (.error code) ↔
      D.Cause token (run (World.exec rule D.router) w cs) env call code :=
  step_eq_error (run_wired hf.wired hg hcs) hc

/-- The asset contract of the host: a negative amount is refused with 8, a short balance with 10. -/
def assetContract (rule : TokenRule) : TokenContract where
  transfer env tokens asset src dst x :=
    match Tokens.transfer rule env tokens asset src dst x with
    | .error .negativeAmount => .error (.error 8)
    | .error .insufficientBalance => .error (.error 10)
    | answer => answer

/-- Account 7 asks for its 50 USDC in VaultL3 a ledger after it deposited them: the lock stops it. Account 8 has
less than it wants to deposit, and the code of the router's answer is the token's. -/
theorem run_codes_locked : harness.Cause (assetContract .host)
      (run (World.exec .host harness.router) harnessWorld [signed 1 (.deposit (.account 7) .l3 usdc 500_000_000)])
      ⟨[7, 8], none, 2⟩ (.withdraw (.account 7) .l3 usdc 500_000_000) VaultError.lockNotExpired.code ∧
    harness.Cause (assetContract .host)
      (run (World.exec .host harness.router) harnessWorld [signed 1 (.deposit (.account 7) .l3 usdc 500_000_000)])
      ⟨[7, 8], none, 2⟩ (.deposit (.account 8) .l3 usdc 30_000_000_000) 10 :=
  ⟨(run_codes harness_fresh guards_host (by simp [admits_signed]) (.withdraw _ _ _ _) _ _ _).mp rfl,
    (run_codes harness_fresh guards_host (by simp [admits_signed]) (.deposit _ _ _ _) _ _ _).mp rfl⟩

end Deployment
end YieldLadder
