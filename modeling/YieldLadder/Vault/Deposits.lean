import YieldLadder.Vault.Ranges
import YieldLadder.Vault.Positions

/-! # Exactly when a deposit goes through, and the state it leaves

A deposit checks the minimum, the cap of a locked tier and the range of each value
it computes. What it leaves is the old state with the four entries of the position
and the two totals written anew.
-/
namespace YieldLadder
open Foundation

namespace Locked
variable {p : TierParams} {env : Env} {s : State} {i : Instance} {user asset : Address} {amount : ℤ}

/-- The state after a deposit that mints `minted` shares. -/
def State.withDeposit (s : State) (p : TierParams) (ledger : ℕ) (k : Key) (amount minted : ℤ) : State where
  inst := s.inst.map fun i => { i with
    totalShares := i.totalShares + minted
    totalBalance := i.totalBalance + amount }
  balance := s.balance.set k (s.balance.getD k 0 + amount)
  shares := s.shares.set k (s.shares.getD k 0 + minted)
  lockUntil := s.lockUntil.set k (ledger + p.lockDuration)
  checkpoint := s.checkpoint.set k (ledger + 1)

/-- The values a deposit computes all fit. -/
structure DepositFits (p : TierParams) (s : State) (ledger : ℕ) (k : Key) (amount minted : ℤ) : Prop where
  totalBalance : InI128 (totalBalance s + amount)
  product : InI128 (amount * p.multiplierFp)
  balance : InI128 (s.balance.getD k 0 + amount)
  shares : InI128 (s.shares.getD k 0 + minted)
  totalShares : InI128 (totalShares s + minted)
  lockUntil : ledger + p.lockDuration < 2 ^ 32
  checkpoint : ledger + 1 < 2 ^ 32

theorem deposit_iff (hi : s.inst = some i) (ha : env.Authorized i.admin) (h0 : 0 ≤ amount)
    (hm : 0 ≤ p.multiplierFp) {r : State × Reply} :
    deposit p env s user asset amount = .ok r ↔
      (p.minDeposit ≤ amount ∧ totalBalance s + amount ≤ maxTvl s ∧
        DepositFits p s env.ledger (user, asset) amount (amount * p.multiplierFp / SCALING_FACTOR)) ∧
      r = (s.withDeposit p env.ledger (user, asset) amount (amount * p.multiplierFp / SCALING_FACTOR),
        ⟨.unit, [.deposit user asset amount]⟩) := by
  have hprod : 0 ≤ amount * p.multiplierFp := Int.mul_nonneg h0 hm
  have hfloor : (amount * p.multiplierFp).tdiv SCALING_FACTOR = amount * p.multiplierFp / SCALING_FACTOR :=
    Int.tdiv_eq_ediv_of_nonneg hprod
  have hquotient : InI128 (amount * p.multiplierFp) → InI128 (amount * p.multiplierFp / SCALING_FACTOR) :=
    fun hin => inI128_of_le (Int.ediv_nonneg hprod (by decide)) (Int.ediv_le_self _ hprod) hin
  simp only [deposit, bind_eq_ok, expect_eq_ok, Env.requireAuth_eq_ok, failIf_eq_ok, addI128_eq_ok,
    mulFp_eq_ok, addU32_eq_ok, pure_eq_ok, not_lt]
  constructor
  · rintro ⟨j, hj, _, _, _, hmin, _, ⟨htb, rfl⟩, _, hcap, _, ⟨hp, _, rfl⟩, _, ⟨hb, rfl⟩, _, ⟨hs, rfl⟩, _,
      ⟨hts, rfl⟩, _, ⟨hlock, rfl⟩, _, ⟨hcp, rfl⟩, rfl⟩
    obtain rfl : i = j := Option.some.inj (hi.symm.trans hj)
    rw [hfloor] at hs hts
    refine ⟨⟨hmin, ?_, ?_, hp, hb, hs, ?_, hlock, hcp⟩, ?_⟩
    · simpa [totalBalance, maxTvl, hi] using hcap
    · simpa [totalBalance, hi] using htb
    · simpa [totalShares, hi] using hts
    · simp only [State.withDeposit, hi, hfloor, Option.map_some]
  · rintro ⟨⟨hmin, hcap, htb, hp, hb, hs, hts, hlock, hcp⟩, rfl⟩
    simp only [totalBalance, totalShares, maxTvl, hi, Option.map_some, Option.getD_some] at hcap htb hts
    refine ⟨i, hi, (), ha, (), hmin, _, ⟨htb, rfl⟩, (), hcap, _, ⟨hp, ?_, rfl⟩, _, ⟨hb, rfl⟩, _, ⟨?_, rfl⟩, _,
      ⟨?_, rfl⟩, _, ⟨hlock, rfl⟩, _, ⟨hcp, rfl⟩, ?_⟩
    · exact hfloor ▸ hquotient hp
    · exact hfloor ▸ hs
    · exact hfloor ▸ hts
    · simp only [State.withDeposit, hi, hfloor, Option.map_some]

end Locked

namespace VaultFlex
variable {env : Env} {s : State} {i : Instance} {user asset : Address} {amount : ℤ}

def State.withDeposit (s : State) (ledger : ℕ) (k : Key) (amount : ℤ) : State where
  inst := s.inst.map fun i => { i with
    totalShares := i.totalShares + amount
    totalBalance := i.totalBalance + amount }
  balance := s.balance.set k (s.balance.getD k 0 + amount)
  shares := s.shares.set k (s.shares.getD k 0 + amount)
  checkpoint := s.checkpoint.set k (ledger + 1)

structure DepositFits (s : State) (ledger : ℕ) (k : Key) (amount : ℤ) : Prop where
  balance : InI128 (s.balance.getD k 0 + amount)
  shares : InI128 (s.shares.getD k 0 + amount)
  totalShares : InI128 (totalShares s + amount)
  totalBalance : InI128 (totalBalance s + amount)
  checkpoint : ledger + 1 < 2 ^ 32

theorem recordDepositCheckpoint_iff {checkpoint r : Store Key ℕ} :
    recordDepositCheckpoint env checkpoint user asset = .ok r ↔
      env.ledger + 1 < 2 ^ 32 ∧ r = checkpoint.set (user, asset) (env.ledger + 1) := by
  unfold recordDepositCheckpoint
  by_cases hlt : env.ledger + 1 < 2 ^ 32
  · rw [if_pos hlt]
    simp only [bind_eq_ok, pure_eq_ok, hlt, true_and]
    constructor
    · rintro ⟨_, rfl, rfl⟩
      rfl
    · rintro rfl
      exact ⟨_, rfl, rfl⟩
  · rw [if_neg hlt]
    exact iff_of_false (by rintro ⟨⟩) fun h => hlt h.1

theorem deposit_iff (hi : s.inst = some i) (ha : env.Authorized i.admin) {r : State × Reply} :
    deposit env s user asset amount = .ok r ↔
      (SCALING_FACTOR ≤ amount ∧ DepositFits s env.ledger (user, asset) amount) ∧
      r = (s.withDeposit env.ledger (user, asset) amount, ⟨.unit, [.deposit user asset amount]⟩) := by
  simp only [deposit, bind_eq_ok, expect_eq_ok, Env.requireAuth_eq_ok, failIf_eq_ok, addI128_eq_ok,
    recordDepositCheckpoint_iff, pure_eq_ok, not_lt]
  constructor
  · rintro ⟨j, hj, _, _, _, hmin, _, ⟨hb, rfl⟩, _, ⟨hs, rfl⟩, _, ⟨hts, rfl⟩, _, ⟨htb, rfl⟩, _,
      ⟨hcp, rfl⟩, rfl⟩
    obtain rfl : i = j := Option.some.inj (hi.symm.trans hj)
    refine ⟨⟨hmin, hb, hs, ?_, ?_, hcp⟩, ?_⟩
    · simpa [totalShares, hi] using hts
    · simpa [totalBalance, hi] using htb
    · simp only [State.withDeposit, hi, Option.map_some]
  · rintro ⟨⟨hmin, hb, hs, hts, htb, hcp⟩, rfl⟩
    simp only [totalBalance, totalShares, hi, Option.map_some, Option.getD_some] at htb hts
    refine ⟨i, hi, (), ha, (), hmin, _, ⟨hb, rfl⟩, _, ⟨hs, rfl⟩, _, ⟨hts, rfl⟩, _, ⟨htb, rfl⟩, _,
      ⟨hcp, rfl⟩, ?_⟩
    simp only [State.withDeposit, hi, Option.map_some]

end VaultFlex

namespace TierVault
variable {env : Env} {v : TierVault} {user asset : Address} {amount : ℤ}

/-- The shares a deposit of `amount` earns: the tier's multiple, rounded down. -/
def earned (v : TierVault) (amount : ℤ) : ℤ :=
  (v.params.map fun p => amount * p.multiplierFp / SCALING_FACTOR).getD amount

def HasRoom (v : TierVault) (amount : ℤ) : Prop :=
  ∀ s, v.core = some s → v.totalBalance + amount ≤ Locked.maxTvl s

/-- No addition or multiplication of a deposit overflows. -/
structure DepositFits (v : TierVault) (ledger : ℕ) (k : Key) (amount : ℤ) : Prop where
  product : ∀ p, v.params = some p → InI128 (amount * p.multiplierFp)
  balance : InI128 (v.balances.getD k 0 + amount)
  shares : InI128 (v.shares.getD k 0 + v.earned amount)
  totalBalance : InI128 (v.totalBalance + amount)
  totalShares : InI128 (v.totalShares + v.earned amount)
  lockUntil : ∀ p, v.params = some p → ledger + p.lockDuration < 2 ^ 32
  checkpoint : ledger + 1 < 2 ^ 32

/-- The vault after a deposit into `k` at `ledger`. -/
def withDeposit (v : TierVault) (ledger : ℕ) (k : Key) (amount : ℤ) : TierVault :=
  match v with
  | .flex s => .flex (s.withDeposit ledger k amount)
  | .l3 s => .l3 { s with
      core := s.core.withDeposit VaultL3.params ledger k amount (v.earned amount) }
  | .l6 s => .l6 (s.withDeposit VaultL6.params ledger k amount (v.earned amount))
  | .l12 s => .l12 (s.withDeposit VaultL12.params ledger k amount (v.earned amount))

variable {s : Locked.State} {p : TierParams}

theorem earned_of_params (hp : v.params = some p) (amount : ℤ) :
    v.earned amount = amount * p.multiplierFp / SCALING_FACTOR := by
  simp [earned, hp]

theorem locked_fits_iff {ledger : ℕ} {k : Key} (hp : v.params = some p) (hs : v.core = some s) :
    Locked.DepositFits p s ledger k amount (amount * p.multiplierFp / SCALING_FACTOR) ↔
      v.DepositFits ledger k amount := by
  have hbal := balances_of_core hs
  have hsh := shares_of_core hs
  have htb := totalBalance_of_core hs
  have hts := totalShares_of_core hs
  rw [← earned_of_params hp]
  constructor
  · rintro ⟨hftb, hprod, hfb, hfs, hfts, hlock, hcp⟩
    refine ⟨fun q hq => ?_, ?_, ?_, ?_, ?_, fun q hq => ?_, hcp⟩
    · obtain rfl : p = q := Option.some.inj (hp.symm.trans hq)
      exact hprod
    · rwa [hbal]
    · rwa [hsh]
    · rwa [htb]
    · rwa [hts]
    · obtain rfl : p = q := Option.some.inj (hp.symm.trans hq)
      exact hlock
  · rintro ⟨hprod, hfb, hfs, hftb, hfts, hlock, hcp⟩
    rw [hbal] at hfb
    rw [hsh] at hfs
    rw [htb] at hftb
    rw [hts] at hfts
    exact ⟨hftb, hprod p hp, hfb, hfs, hfts, hlock p hp, hcp⟩

theorem withDeposit_of_core (hp : v.params = some p) (hs : v.core = some s) (ledger : ℕ) (k : Key) (amount : ℤ) :
    v.withDeposit ledger k amount = v.withCore (s.withDeposit p ledger k amount (v.earned amount)) := by
  cases v <;> cases hs <;> cases hp <;> rfl

theorem multiplierFp_nonneg (hp : v.params = some p) : 0 ≤ p.multiplierFp := by
  cases v <;> cases hp <;> decide

/-- A locked vault's deposit is the locked operation on its core. -/
theorem locked_deposit_iff (hp : v.params = some p) (hs : v.core = some s) (ha : v.AdminAuthorized env)
    (h0 : 0 ≤ amount) {r : TierVault × Reply} :
    step env v (.deposit user asset amount) = .ok r ↔
      (v.minDeposit ≤ amount ∧ v.HasRoom amount ∧ v.DepositFits env.ledger (user, asset) amount) ∧
      r = (v.withDeposit env.ledger (user, asset) amount, ⟨.unit, [.deposit user asset amount]⟩) := by
  obtain ⟨i, hi, ha⟩ := ha.of_core hs
  have htb := totalBalance_of_core hs
  have hroom : v.HasRoom amount ↔ Locked.totalBalance s + amount ≤ Locked.maxTvl s := by
    simp [HasRoom, hs, htb]
  rw [step_eq_operate hp hs (by simp) (by simp [AboutFlags]), bind_eq_ok, minDeposit_of_params hp, hroom,
    ← locked_fits_iff hp hs, withDeposit_of_core hp hs, earned_of_params hp]
  simp only [Locked.operate, Locked.deposit_iff hi ha h0 (multiplierFp_nonneg hp), pure_eq_ok]
  constructor
  · rintro ⟨_, ⟨hconditions, rfl⟩, rfl⟩
    exact ⟨hconditions, rfl⟩
  · rintro ⟨hconditions, rfl⟩
    exact ⟨_, ⟨hconditions, rfl⟩, rfl⟩

/-- A deposit the admin authorises goes through exactly when these conditions hold, and leaves exactly
this state. -/
theorem deposit_iff (ha : v.AdminAuthorized env) (h0 : 0 ≤ amount) {r : TierVault × Reply} :
    step env v (.deposit user asset amount) = .ok r ↔
      (v.minDeposit ≤ amount ∧ v.HasRoom amount ∧ v.DepositFits env.ledger (user, asset) amount) ∧
      r = (v.withDeposit env.ledger (user, asset) amount, ⟨.unit, [.deposit user asset amount]⟩) := by
  rcases v.flex_or_locked with ⟨s, rfl⟩ | ⟨p, s, hp, hs⟩
  · obtain ⟨a, hadmin, ha⟩ := ha
    obtain ⟨i, hi, rfl⟩ := Option.map_eq_some_iff.mp hadmin
    have hroom : (TierVault.flex s).HasRoom amount := by simp [HasRoom, core]
    have hfits : VaultFlex.DepositFits s env.ledger (user, asset) amount ↔
        (TierVault.flex s).DepositFits env.ledger (user, asset) amount := by
      constructor
      · rintro ⟨hb, hs, hts, htb, hcp⟩
        exact ⟨by simp [params], hb, hs, htb, hts, by simp [params], hcp⟩
      · rintro ⟨_, hb, hs, htb, hts, _, hcp⟩
        exact ⟨hb, hs, hts, htb, hcp⟩
    simp only [step, VaultFlex.step, bind_eq_ok, VaultFlex.deposit_iff hi ha, pure_eq_ok, hfits, hroom,
      true_and]
    constructor
    · rintro ⟨_, ⟨hconditions, rfl⟩, rfl⟩
      exact ⟨hconditions, rfl⟩
    · rintro ⟨hconditions, rfl⟩
      exact ⟨_, ⟨hconditions, rfl⟩, rfl⟩
  · exact locked_deposit_iff hp hs ha h0

/-- What a deposit of `amount` into `k` at `ledger` writes: the four entries of the position and the
two totals. -/
structure Credited (v v' : TierVault) (ledger : ℕ) (k : Key) (amount : ℤ) : Prop where
  balances : v'.balances = v.balances.set k (v.balances.getD k 0 + amount)
  shares : v'.shares = v.shares.set k (v.shares.getD k 0 + v.earned amount)
  totalBalance : v'.totalBalance = v.totalBalance + amount
  totalShares : v'.totalShares = v.totalShares + v.earned amount
  locks : ∀ p, v.params = some p → v'.locks = v.locks.set k (ledger + p.lockDuration)
  checkpoints : v'.checkpoints = v.checkpoints.set k (ledger + 1)

theorem credited_of_core {v' : TierVault} {i : Locked.Instance} {ledger : ℕ} {k : Key}
    (hp : v.params = some p) (hs : v.core = some s) (hi : s.inst = some i)
    (hs' : v'.core = some (s.withDeposit p ledger k amount (v.earned amount))) :
    Credited v v' ledger k amount := by
  constructor
  · rw [balances_of_core hs, balances_of_core hs']
    rfl
  · rw [shares_of_core hs, shares_of_core hs']
    rfl
  · rw [totalBalance_of_core hs, totalBalance_of_core hs']
    simp [Locked.totalBalance, Locked.State.withDeposit, hi]
  · rw [totalShares_of_core hs, totalShares_of_core hs']
    simp [Locked.totalShares, Locked.State.withDeposit, hi]
  · intro q hq
    obtain rfl : p = q := Option.some.inj (hp.symm.trans hq)
    rw [locks_of_core hs, locks_of_core hs']
    rfl
  · rw [checkpoints_of_core hs, checkpoints_of_core hs']
    rfl

theorem withDeposit_credited {a : Address} (ha : v.admin = some a) (ledger : ℕ) (k : Key) (amount : ℤ) :
    Credited v (v.withDeposit ledger k amount) ledger k amount := by
  cases v with
  | flex s =>
    obtain ⟨i, hi, rfl⟩ := Option.map_eq_some_iff.mp ha
    constructor
    · rfl
    · rfl
    · simp [withDeposit, TierVault.totalBalance, VaultFlex.totalBalance, VaultFlex.State.withDeposit, hi]
    · simp [withDeposit, TierVault.totalShares, VaultFlex.totalShares, VaultFlex.State.withDeposit, hi,
        earned, params]
    · simp [params]
    · rfl
  | l3 s =>
    obtain ⟨i, hi, rfl⟩ := Option.map_eq_some_iff.mp ha
    exact credited_of_core rfl rfl hi rfl
  | l6 s =>
    obtain ⟨i, hi, rfl⟩ := Option.map_eq_some_iff.mp ha
    exact credited_of_core rfl rfl hi rfl
  | l12 s =>
    obtain ⟨i, hi, rfl⟩ := Option.map_eq_some_iff.mp ha
    exact credited_of_core rfl rfl hi rfl

end TierVault
end YieldLadder
