import YieldLadder.Router.Minimums
import YieldLadder.Vault.Positions

/-! # The codes a vault ends a call with

A locked vault panics with a code of its own, and each code is raised by one check. All
else that can stop an operation, a missing authorization or an overflow, carries no code;
neither does anything that VaultFlex panics with.
-/
namespace YieldLadder
open Foundation

/-- The code of a `panic_with_error!`. -/
def Fault.code : Fault → Option ℕ
  | .error code => some code
  | _ => none

/-- The computation ends with no code. -/
abbrev Codeless {α : Type} (x : Except Fault α) : Prop := FailsOnly (fun e => e.code = none) x

/-- Where the first part has no code, a code comes from the rest. -/
theorem Codeless.bind_eq_error {α β : Type} {x : Except Fault α} {f : α → Except Fault β} {code : ℕ}
    (hx : Codeless x) : x >>= f = .error (.error code) ↔ ∃ a, x = .ok a ∧ f a = .error (.error code) :=
  Foundation.bind_eq_error hx (by simp [Fault.code])

theorem Codeless.ne {α : Type} {x : Except Fault α} (hx : Codeless x) (code : ℕ) : x ≠ .error (.error code) := by
  intro h
  cases hx _ h

theorem Codeless.failIf_bind {α : Type} {c : Prop} [Decidable c] {f : Unit → Except Fault α} {code raised : ℕ}
    (hf : Codeless (f ())) : failIf c (.error raised) >>= f = .error (.error code) ↔ c ∧ raised = code := by
  rw [failIf_bind_eq_error, Fault.error.injEq]
  exact or_iff_left fun h => hf.ne code h.2

theorem codeless_of_overflow {α : Type} {x : Except Fault α} (h : FailsOnly (· = .overflow) x) : Codeless x :=
  h.mono fun _ he => he ▸ rfl

theorem divI128_codeless (a b : ℤ) : Codeless (divI128 a b) :=
  .bind (.of_failIf rfl) fun _ _ => codeless_of_overflow (inI128_fails _)

theorem requireAuth_codeless (env : Env) (a : Address) : Codeless (env.requireAuth a) := .of_failIf rfl

namespace Locked
variable {p : TierParams} {emergency : Bool} {env : Env} {s : State} {i : Instance} {user asset : Address}
variable {amount : ℤ} {code : ℕ}

theorem takeOut_codeless (i : Instance) (s : State) (user asset : Address) (amount : ℤ) :
    Codeless (takeOut i s user asset amount) := by
  unfold takeOut
  dsimp only
  split
  · exact .bind (codeless_of_overflow (inI128_fails _)) fun _ _ =>
      .bind (codeless_of_overflow (inI128_fails _)) fun _ _ => .of_ok rfl
  · refine .bind (codeless_of_overflow (inI128_fails _)) fun _ _ => .bind (divI128_codeless _ _) fun _ _ => ?_
    refine codeless_of_overflow ?_
    exact .bind (inI128_fails _) fun _ _ => .bind (inI128_fails _) fun _ _ => .bind (inI128_fails _) fun _ _ =>
      .bind (inI128_fails _) fun _ _ => .of_ok rfl

theorem exitFee_codeless (p : TierParams) (emergency : Bool) (amount : ℤ) :
    Codeless (exitFee p emergency amount) := by
  unfold exitFee
  split
  · exact .of_ok rfl
  · exact codeless_of_overflow (mulFp_fails _ _)

/-- Past the minimum, the one code of a deposit is the cap's. -/
theorem deposit_eq_error (hi : s.inst = some i) (ha : env.Authorized i.admin) (hmin : p.minDeposit ≤ amount) :
    deposit p env s user asset amount = .error (.error code) ↔
      (InI128 (i.totalBalance + amount) ∧ i.maxTvl < i.totalBalance + amount) ∧
        VaultError.depositCapExceeded.code = code := by
  have hauth : env.requireAuth i.admin = .ok () := Env.requireAuth_eq_ok.mpr ha
  have htotal : Codeless (addI128 i.totalBalance amount) := codeless_of_overflow (inI128_fails _)
  rw [deposit, hi, expect_some, ok_bind, hauth, ok_bind, failIf_of_not (not_lt.mpr hmin), ok_bind,
    htotal.bind_eq_error]
  simp only [addI128_eq_ok, failIf_bind_eq_error]
  constructor
  · rintro ⟨total, ⟨hin, rfl⟩, ⟨hcap, hcode⟩ | ⟨_, hrest⟩⟩
    · exact ⟨⟨hin, hcap⟩, Fault.error.inj hcode⟩
    · refine absurd hrest (Codeless.ne (codeless_of_overflow ?_) code)
      exact .bind (mulFp_fails _ _) fun _ _ => .bind (inI128_fails _) fun _ _ => .bind (inI128_fails _) fun _ _ =>
        .bind (inI128_fails _) fun _ _ => .bind (addU32_fails _ _) fun _ _ => .bind (addU32_fails _ _) fun _ _ =>
        .of_ok rfl
  · rintro ⟨⟨hin, hcap⟩, rfl⟩
    exact ⟨_, ⟨hin, rfl⟩, .inl ⟨hcap, rfl⟩⟩

/-- A withdrawal asks the lock before it asks the balance. -/
theorem withdraw_eq_error (hi : s.inst = some i) (ha : env.Authorized i.admin) :
    withdraw emergency env s user asset amount = .error (.error code) ↔
      (emergency = false ∧ env.ledger < s.lockUntil.getD (user, asset) 0) ∧
          VaultError.lockNotExpired.code = code ∨
        ¬(emergency = false ∧ env.ledger < s.lockUntil.getD (user, asset) 0) ∧
          s.balance.getD (user, asset) 0 < amount ∧ VaultError.amountExceedsBalance.code = code := by
  have hauth : env.requireAuth i.admin = .ok () := Env.requireAuth_eq_ok.mpr ha
  have hdo : withdraw emergency env s user asset amount = .error (.error code) ↔
      doWithdraw emergency env s user asset amount = .error (.error code) :=
    bind_eq_error_of_ok fun _ => ⟨_, rfl⟩
  rw [hdo, doWithdraw, hi, expect_some, ok_bind, hauth, ok_bind, failIf_bind_eq_error]
  apply or_congr
  · rw [VaultError.fault, Fault.error.injEq]
  · apply and_congr_right
    intro _
    apply Codeless.failIf_bind
    exact .bind (takeOut_codeless _ _ _ _ _) fun _ _ => .of_ok rfl

theorem earlyExit_eq_error (hi : s.inst = some i) (ha : env.Authorized i.admin) :
    earlyExit p emergency env s user asset amount = .error (.error code) ↔
      s.balance.getD (user, asset) 0 < amount ∧ VaultError.amountExceedsBalance.code = code := by
  have hauth : env.requireAuth i.admin = .ok () := Env.requireAuth_eq_ok.mpr ha
  have hdo : earlyExit p emergency env s user asset amount = .error (.error code) ↔
      doEarlyExit p emergency env s user asset amount = .error (.error code) :=
    bind_eq_error_of_ok fun _ => ⟨_, rfl⟩
  rw [hdo, doEarlyExit, hi, expect_some, ok_bind, hauth, ok_bind]
  apply Codeless.failIf_bind
  exact .bind (exitFee_codeless _ _ _) fun _ _ => .bind (codeless_of_overflow (inI128_fails _)) fun _ _ =>
    .bind (takeOut_codeless _ _ _ _ _) fun _ _ => .of_ok rfl

theorem relock_eq_error (hi : s.inst = some i) (ha : env.Authorized i.admin) :
    relock p env s user asset = .error (.error code) ↔
      env.ledger < s.lockUntil.getD (user, asset) 0 ∧ VaultError.notYetMatured.code = code := by
  have hauth : env.requireAuth i.admin = .ok () := Env.requireAuth_eq_ok.mpr ha
  rw [relock, hi, expect_some, ok_bind, hauth, ok_bind]
  apply Codeless.failIf_bind
  exact .bind (codeless_of_overflow (addU32_fails _ _)) fun _ _ => .of_ok rfl

end Locked

namespace VaultFlex
variable {env : Env} {s : State}

theorem deposit_codeless (env : Env) (s : State) (user asset : Address) (amount : ℤ) :
    Codeless (deposit env s user asset amount) := by
  refine .bind (.of_expect rfl) fun i _ => .bind (requireAuth_codeless _ _) fun _ _ => ?_
  refine .bind (.of_failIf rfl) fun _ _ => .bind (codeless_of_overflow (inI128_fails _)) fun _ _ => ?_
  refine .bind (codeless_of_overflow (inI128_fails _)) fun _ _ => ?_
  refine .bind (codeless_of_overflow (inI128_fails _)) fun _ _ => ?_
  refine .bind (codeless_of_overflow (inI128_fails _)) fun _ _ => .bind ?_ fun _ _ => .of_ok rfl
  unfold recordDepositCheckpoint
  split
  · exact .of_ok rfl
  · intro e he
    cases he
    rfl

theorem doWithdraw_codeless (env : Env) (s : State) (user asset : Address) (amount : ℤ) :
    Codeless (doWithdraw env s user asset amount) := by
  refine .bind (.of_expect rfl) fun i _ => .bind (requireAuth_codeless _ _) fun _ _ => ?_
  refine .bind (.of_failIf rfl) fun _ _ => .bind (.of_failIf rfl) fun _ _ => ?_
  split
  · refine codeless_of_overflow ?_
    exact .bind (inI128_fails _) fun _ _ => .bind (inI128_fails _) fun _ _ => .of_ok rfl
  · refine .bind (codeless_of_overflow (inI128_fails _)) fun _ _ => .bind (divI128_codeless _ _) fun _ _ => ?_
    refine codeless_of_overflow ?_
    exact .bind (inI128_fails _) fun _ _ => .bind (inI128_fails _) fun _ _ => .bind (inI128_fails _) fun _ _ =>
      .bind (inI128_fails _) fun _ _ => .of_ok rfl

theorem step_codeless (env : Env) (s : State) (call : VaultCall) : Codeless (step env s call) := by
  cases call with
  | initialise args =>
    cases args with
    | flex admin strategy => exact .bind (.bind (.of_failIf rfl) fun _ _ => .of_ok rfl) fun _ _ => .of_ok rfl
    | _ =>
      intro e he
      cases he
      rfl
  | deposit user asset amount => exact deposit_codeless env s user asset amount
  | withdraw user asset amount => exact .bind (doWithdraw_codeless env s user asset amount) fun _ _ => .of_ok rfl
  | earlyExit user asset amount => exact .bind (doWithdraw_codeless env s user asset amount) fun _ _ => .of_ok rfl
  | query q =>
    refine .bind ?_ fun _ _ => .of_ok rfl
    intro e he
    cases q <;> cases he <;> rfl
  | _ =>
    intro e he
    cases he
    rfl

end VaultFlex

namespace TierVault
variable {env : Env} {v : TierVault} {user asset : Address} {amount : ℤ} {code : ℕ}

/-- The cap of a locked tier has no room for `amount`. -/
def Full (v : TierVault) (amount : ℤ) : Prop :=
  ∃ s, v.core = some s ∧ InI128 (v.totalBalance + amount) ∧ Locked.maxTvl s < v.totalBalance + amount

/-- The lock of the position has not matured, and no emergency waives it. -/
def StillLocked (v : TierVault) (ledger : ℕ) (user asset : Address) : Prop :=
  v.emergency asset = false ∧ ledger < v.locks.getD (user, asset) 0

/-- A locked tier holds less than `amount` for the user. -/
def Short (v : TierVault) (user asset : Address) (amount : ℤ) : Prop :=
  v.core.isSome = true ∧ v.balance user asset < amount

theorem step_flex_codeless (env : Env) (s : VaultFlex.State) (call : VaultCall) :
    Codeless ((TierVault.flex s).step env call) :=
  .bind (VaultFlex.step_codeless env s call) fun _ _ => .of_ok rfl

theorem locked_eq_error {p : TierParams} {s : Locked.State} {call : VaultCall} (hp : v.params = some p)
    (hs : v.core = some s) (hinit : ∀ args, call ≠ .initialise args) (hflag : ¬AboutFlags call) {e : Fault} :
    v.step env call = .error e ↔ Locked.operate p v.emergency env s call = .error e := by
  rw [step_eq_operate hp hs hinit hflag]
  exact bind_eq_error_of_ok fun _ => ⟨_, rfl⟩

theorem deposit_eq_error (ha : v.AdminAuthorized env) (hmin : v.minDeposit ≤ amount) :
    v.step env (.deposit user asset amount) = .error (.error code) ↔
      v.Full amount ∧ VaultError.depositCapExceeded.code = code := by
  rcases v.flex_or_locked with ⟨s, rfl⟩ | ⟨p, s, hp, hs⟩
  · exact iff_of_false ((step_flex_codeless env s _).ne code) (by simp [Full, core])
  · obtain ⟨i, hi, ha⟩ := ha.of_core hs
    rw [minDeposit_of_params hp] at hmin
    have htotal : v.totalBalance = i.totalBalance := by
      simp [totalBalance_of_core hs, Locked.totalBalance, hi]
    have hcap : Locked.maxTvl s = i.maxTvl := by simp [Locked.maxTvl, hi]
    rw [locked_eq_error hp hs (by simp) (by simp [AboutFlags]), Locked.operate, Locked.deposit_eq_error hi ha hmin]
    simp [Full, hs, htotal, hcap]

theorem withdraw_eq_error (ha : v.AdminAuthorized env) :
    v.step env (.withdraw user asset amount) = .error (.error code) ↔
      v.StillLocked env.ledger user asset ∧ VaultError.lockNotExpired.code = code ∨
        ¬v.StillLocked env.ledger user asset ∧ v.Short user asset amount ∧
          VaultError.amountExceedsBalance.code = code := by
  rcases v.flex_or_locked with ⟨s, rfl⟩ | ⟨p, s, hp, hs⟩
  · refine iff_of_false ((step_flex_codeless env s _).ne code) ?_
    simp [StillLocked, Short, core, locks, Store.getD_empty]
  · obtain ⟨i, hi, ha⟩ := ha.of_core hs
    rw [locked_eq_error hp hs (by simp) (by simp [AboutFlags]), Locked.operate, Locked.withdraw_eq_error hi ha]
    simp [StillLocked, Short, hs, locks_of_core hs, balance_of_core hs]

theorem earlyExit_eq_error (ha : v.AdminAuthorized env) :
    v.step env (.earlyExit user asset amount) = .error (.error code) ↔
      v.Short user asset amount ∧ VaultError.amountExceedsBalance.code = code := by
  rcases v.flex_or_locked with ⟨s, rfl⟩ | ⟨p, s, hp, hs⟩
  · exact iff_of_false ((step_flex_codeless env s _).ne code) (by simp [Short, core])
  · obtain ⟨i, hi, ha⟩ := ha.of_core hs
    rw [locked_eq_error hp hs (by simp) (by simp [AboutFlags]), Locked.operate, Locked.earlyExit_eq_error hi ha]
    simp [Short, hs, balance_of_core hs]

theorem relock_eq_error (ha : v.AdminAuthorized env) :
    v.step env (.relock user asset) = .error (.error code) ↔
      env.ledger < v.locks.getD (user, asset) 0 ∧ VaultError.notYetMatured.code = code := by
  rcases v.flex_or_locked with ⟨s, rfl⟩ | ⟨p, s, hp, hs⟩
  · exact iff_of_false ((step_flex_codeless env s _).ne code) (by simp [locks, Store.getD_empty])
  · obtain ⟨i, hi, ha⟩ := ha.of_core hs
    have hrelock : Locked.operate p v.emergency env s (.relock user asset) = .error (.error code) ↔
        Locked.relock p env s user asset = .error (.error code) := bind_eq_error_of_ok fun _ => ⟨_, rfl⟩
    rw [locked_eq_error hp hs (by simp) (by simp [AboutFlags]), hrelock, Locked.relock_eq_error hi ha,
      locks_of_core hs]

end TierVault
end YieldLadder
