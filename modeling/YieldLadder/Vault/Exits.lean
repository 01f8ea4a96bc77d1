import YieldLadder.Vault.LockSafety

/-! # Exactly when a partial exit succeeds

An exit of less than the recorded balance checks the admin, the lock when it is a
withdrawal, and the range of each intermediate value. No check asks whether the
amount is negative, and an exit of a negative amount raises the balance.
-/
namespace YieldLadder
open Foundation

/-- The fee of an early exit and what is left of the amount fit as well. -/
def FeeFits (p : TierParams) (emergency : Bool) (amount : ℤ) : Prop :=
  (emergency = false → InI128 (amount * p.exitFeeFp) ∧
    InI128 ((amount * p.exitFeeFp).tdiv SCALING_FACTOR)) ∧
  InI128 (amount - Locked.feeOf p emergency amount)

namespace Locked
variable {p : TierParams} {emergency : Bool} {env : Env} {s : State} {i : Instance}
variable {user asset : Address} {amount : ℤ}

theorem takeOut_partial_iff (hi : s.inst = some i) (hlt : amount < s.balance.getD (user, asset) 0) :
    (∃ s', takeOut i s user asset amount = .ok s') ↔
      s.balance.getD (user, asset) 0 ≠ 0 ∧ Fits s.book (user, asset) amount := by
  rw [takeOut_eq_sums hi]
  exact exitSums_part_iff (b := s.book) hlt

/-- A withdrawal checks the lock, and the rest is the exit. -/
theorem withdraw_iff_takeOut (hi : s.inst = some i) (ha : env.Authorized i.admin) :
    (∃ r, withdraw emergency env s user asset amount = .ok r) ↔
      (emergency = true ∨ s.lockUntil.getD (user, asset) 0 ≤ env.ledger) ∧
        amount ≤ s.balance.getD (user, asset) 0 ∧ ∃ s', takeOut i s user asset amount = .ok s' := by
  constructor
  · rintro ⟨r, h⟩
    simp only [withdraw, bind_eq_ok] at h
    obtain ⟨_, hw, _⟩ := h
    obtain ⟨j, hj, _, hlock, hle, ht, _⟩ := doWithdraw_ok hw
    cases hi.symm.trans hj
    refine ⟨?_, hle, _, ht⟩
    cases emergency with
    | true => exact .inl rfl
    | false => exact .inr (hlock rfl)
  · rintro ⟨hopen, hle, s', ht⟩
    have hopen : ¬(emergency = false ∧ env.ledger < s.lockUntil.getD (user, asset) 0) := by
      rintro ⟨hem, hlate⟩
      rcases hopen with hem' | hlock
      · simp [hem] at hem'
      · omega
    simp only [withdraw, doWithdraw, bind_eq_ok, expect_eq_ok, Env.requireAuth_eq_ok, failIf_eq_ok,
      pure_eq_ok]
    exact ⟨_, _, ⟨i, hi, (), ha, (), hopen, (), not_lt.mpr hle, s', ht, rfl⟩, rfl⟩

theorem exitFee_iff : (∃ fee, exitFee p emergency amount = .ok fee) ↔
    (emergency = false → InI128 (amount * p.exitFeeFp) ∧
      InI128 ((amount * p.exitFeeFp).tdiv SCALING_FACTOR)) := by
  cases emergency with
  | true => simp [exitFee]
  | false => simp [exitFee]

/-- An early exit computes its fee, and the rest is the exit. -/
theorem earlyExit_iff_takeOut (hi : s.inst = some i) (ha : env.Authorized i.admin) :
    (∃ r, earlyExit p emergency env s user asset amount = .ok r) ↔
      FeeFits p emergency amount ∧ amount ≤ s.balance.getD (user, asset) 0 ∧
        ∃ s', takeOut i s user asset amount = .ok s' := by
  simp only [earlyExit, doEarlyExit, bind_eq_ok, expect_eq_ok, Env.requireAuth_eq_ok, failIf_eq_ok,
    subI128_eq_ok, pure_eq_ok]
  constructor
  · rintro ⟨_, _, ⟨j, hj, _, _, _, hle, fee, hfee, _, ⟨hnet, rfl⟩, s', ht, _⟩, _⟩
    cases hi.symm.trans hj
    exact ⟨⟨exitFee_iff.mp ⟨fee, hfee⟩, exitFee_ok hfee ▸ hnet⟩, not_lt.mp hle, s', ht⟩
  · rintro ⟨⟨hfee, hnet⟩, hle, s', ht⟩
    obtain ⟨fee, hfee⟩ := exitFee_iff.mpr hfee
    exact ⟨_, _, ⟨i, hi, (), ha, (), not_lt.mpr hle, fee, hfee, _, ⟨exitFee_ok hfee ▸ hnet, rfl⟩, s', ht,
      rfl⟩, rfl⟩

end Locked

namespace VaultFlex
variable {env : Env} {s : State} {i : Instance} {user asset : Address} {amount : ℤ}

theorem doWithdraw_partial_iff (hi : s.inst = some i) (ha : env.Authorized i.admin)
    (hs : s.balance.getD (user, asset) 0 ≠ 0 → 0 < s.shares.getD (user, asset) 0)
    (hb : 0 ≤ s.balance.getD (user, asset) 0) (hlt : amount < s.balance.getD (user, asset) 0) :
    (∃ r, doWithdraw env s user asset amount = .ok r) ↔
      s.balance.getD (user, asset) 0 ≠ 0 ∧ Fits s.book (user, asset) amount := by
  rw [exists_doWithdraw_iff hi ha, exitSums_part_iff (b := s.book) hlt]
  constructor
  · rintro ⟨_, _, h0, hfits⟩
    exact ⟨h0, hfits⟩
  · rintro ⟨h0, hfits⟩
    exact ⟨⟨hs h0, lt_of_le_of_ne hb h0.symm⟩, hlt.le, h0, hfits⟩

end VaultFlex

namespace TierVault
variable {env : Env} {v : TierVault} {user asset : Address} {amount : ℤ}

/-- The position may be withdrawn: no lock, an expired one, or an emergency unlock. -/
def Matured (v : TierVault) (ledger : ℕ) (user asset : Address) : Prop :=
  v.emergency asset = true ∨ v.lockUntil (user, asset) ≤ ledger

/-- The fee of an early exit fits, where the tier charges one. -/
def FeeFitsAt (v : TierVault) (asset : Address) (amount : ℤ) : Prop :=
  ∀ p ∈ v.params, FeeFits p (v.emergency asset) amount

theorem feeFitsAt_of_params {p : TierParams} (hp : v.params = some p) :
    v.FeeFitsAt asset amount ↔ FeeFits p (v.emergency asset) amount := by
  simp [FeeFitsAt, hp]

/-- What an exit asks of the vault besides the position: its lock is over, or its fee fits. -/
def ExitChecks (v : TierVault) (ledger : ℕ) (user asset : Address) (amount : ℤ) : Exit → Prop
  | .withdraw => v.Matured ledger user asset
  | .early => v.FeeFitsAt asset amount

theorem flex_exitChecks {s : VaultFlex.State} {ledger : ℕ} (e : Exit) :
    (TierVault.flex s).ExitChecks ledger user asset amount e := by
  cases e with
  | withdraw => exact .inr (Nat.zero_le _)
  | early =>
    intro p hp
    cases hp

theorem flex_exit_iff {s : VaultFlex.State} (e : Exit) :
    (∃ r, step env (.flex s) (e.call user asset amount) = .ok r) ↔
      ∃ r, VaultFlex.doWithdraw env s user asset amount = .ok r := by
  cases e <;>
    simp only [Exit.call, step, VaultFlex.step, VaultFlex.withdraw, VaultFlex.earlyExit, exists_bind_pure]

theorem locked_exit_iff {p : TierParams} {s : Locked.State} {i : Locked.Instance} (e : Exit) (hp : v.params = some p)
    (hs : v.core = some s) (hi : s.inst = some i) (ha : env.Authorized i.admin) :
    (∃ r, step env v (e.call user asset amount) = .ok r) ↔
      v.ExitChecks env.ledger user asset amount e ∧ amount ≤ v.balance user asset ∧
        ∃ s', Locked.takeOut i s user asset amount = .ok s' := by
  rw [balance_of_core hs]
  cases e with
  | withdraw =>
    rw [Exit.call, exists_step_iff hp hs (by simp) (by simp [AboutFlags]), ExitChecks, Matured, lockUntil_of_core hs]
    exact Locked.withdraw_iff_takeOut hi ha
  | early =>
    rw [Exit.call, exists_step_iff hp hs (by simp) (by simp [AboutFlags]), ExitChecks, feeFitsAt_of_params hp]
    exact Locked.earlyExit_iff_takeOut hi ha

/-- Exactly when an exit of less than the balance goes through, of whatever sign. -/
theorem exit_partial_iff (e : Exit) (hv : v.book.Coherent) (ha : v.AdminAuthorized env)
    (hlt : amount < v.balance user asset) :
    (∃ r, step env v (e.call user asset amount) = .ok r) ↔
      v.balance user asset ≠ 0 ∧ v.ExitChecks env.ledger user asset amount e ∧
        Fits v.book (user, asset) amount := by
  rcases v.flex_or_locked with ⟨s, rfl⟩ | ⟨p, s, hp, hs⟩
  · obtain ⟨a, hadmin, ha⟩ := ha
    obtain ⟨i, hi, rfl⟩ := Option.map_eq_some_iff.mp hadmin
    rw [flex_exit_iff, VaultFlex.doWithdraw_partial_iff hi ha (fun h => hv.shares_getD_pos h)
      (hv.principal_nonneg (user, asset)) hlt]
    exact ⟨fun h => ⟨h.1, flex_exitChecks e, h.2⟩, fun h => ⟨h.1, h.2.2⟩⟩
  · obtain ⟨i, hi, ha⟩ := ha.of_core hs
    have hltCore : amount < s.balance.getD (user, asset) 0 := balance_of_core hs user asset ▸ hlt
    rw [locked_exit_iff e hp hs hi ha, Locked.takeOut_partial_iff hi hltCore, balance_of_core hs, book_of_core hs]
    exact ⟨fun h => ⟨h.2.2.1, h.1, h.2.2.2⟩, fun h => ⟨h.2.1, hltCore.le, h.1, h.2.2⟩⟩

end TierVault
end YieldLadder
