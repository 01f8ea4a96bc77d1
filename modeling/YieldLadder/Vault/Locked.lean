import YieldLadder.Vault.Interface

/-! # The locked tier vaults

VaultL3, VaultL6 and VaultL12 were written by hand three times. Their operations
are given once, with the tier's numbers and the emergency flag of the asset as
parameters; each vault is the instance with its own numbers, and only VaultL3 has
a flag to pass. The instance entries are written together by `initialise`, so a
vault either has all of them or none.
-/
namespace YieldLadder
open Foundation

/-- What distinguishes one locked tier from another. -/
structure TierParams where
  minDeposit : ℤ
  multiplierFp : ℤ
  lockDuration : ℕ
  exitFeeFp : ℤ
  deriving DecidableEq, Repr

namespace Locked

def DEFAULT_MAX_TVL : ℤ := 10_000_000_000_000

/-- The instance storage `initialise` writes. -/
structure Instance where
  admin : Address
  governance : Address
  strategy : Address
  usdc : Address
  maxTvl : ℤ
  totalShares : ℤ
  totalBalance : ℤ
  deriving DecidableEq, Repr

structure State where
  inst : Option Instance
  balance : Store Key ℤ
  shares : Store Key ℤ
  lockUntil : Store Key ℕ
  checkpoint : Store Key ℕ

def State.empty : State := ⟨none, .empty, .empty, .empty, .empty⟩

def initialise (env : Env) (s : State) (admin governance strategy usdc : Address) (maxTvl : ℤ) :
    Except Fault State := do
  env.requireAuth admin
  let cap := if maxTvl > 0 then maxTvl else DEFAULT_MAX_TVL
  pure { s with inst := some ⟨admin, governance, strategy, usdc, cap, 0, 0⟩ }

def deposit (p : TierParams) (env : Env) (s : State) (user asset : Address) (amount : ℤ) :
    Except Fault (State × Reply) := do
  let i ← expect (.panic "not initialized") s.inst
  env.requireAuth i.admin
  failIf (amount < p.minDeposit) VaultError.belowMinDeposit.fault
  let totalBalance ← addI128 i.totalBalance amount
  failIf (totalBalance > i.maxTvl) VaultError.depositCapExceeded.fault
  let newShares ← mulFp amount p.multiplierFp
  let newBalance ← addI128 (s.balance.getD (user, asset) 0) amount
  let allShares ← addI128 (s.shares.getD (user, asset) 0) newShares
  let totalShares ← addI128 i.totalShares newShares
  let lockUntil ← addU32 env.ledger p.lockDuration
  let checkpoint ← addU32 env.ledger 1
  pure ({ inst := some { i with totalShares, totalBalance }
          balance := s.balance.set (user, asset) newBalance
          shares := s.shares.set (user, asset) allShares
          lockUntil := s.lockUntil.set (user, asset) lockUntil
          checkpoint := s.checkpoint.set (user, asset) checkpoint },
    ⟨.unit, [.deposit user asset amount]⟩)

/-- The pair of branches every exit ends in: `amount` at least the balance closes
the position, less burns shares in proportion and keeps the lock. -/
def takeOut (i : Instance) (s : State) (user asset : Address) (amount : ℤ) :
    Except Fault State := do
  let balance := s.balance.getD (user, asset) 0
  let userShares := s.shares.getD (user, asset) 0
  if amount ≥ balance then do
    let totalShares ← subI128 i.totalShares userShares
    let totalBalance ← subI128 i.totalBalance balance
    pure { inst := some { i with totalShares, totalBalance := max totalBalance 0 }
           balance := s.balance.remove (user, asset)
           shares := s.shares.remove (user, asset)
           lockUntil := s.lockUntil.remove (user, asset)
           checkpoint := s.checkpoint.remove (user, asset) }
  else do
    let product ← mulI128 userShares amount
    let sharesToBurn ← divI128 product balance
    let newBalance ← subI128 balance amount
    let newShares ← subI128 userShares sharesToBurn
    let totalShares ← subI128 i.totalShares sharesToBurn
    let totalBalance ← subI128 i.totalBalance amount
    pure { s with
           inst := some { i with totalShares, totalBalance }
           balance := s.balance.set (user, asset) newBalance
           shares := s.shares.set (user, asset) newShares }

def doWithdraw (emergency : Bool) (env : Env) (s : State) (user asset : Address) (amount : ℤ) :
    Except Fault (State × ℤ) := do
  let i ← expect (.panic "not initialized") s.inst
  env.requireAuth i.admin
  failIf (emergency = false ∧ env.ledger < s.lockUntil.getD (user, asset) 0)
    VaultError.lockNotExpired.fault
  let balance := s.balance.getD (user, asset) 0
  failIf (amount > balance) VaultError.amountExceedsBalance.fault
  let s' ← takeOut i s user asset amount
  pure (s', if amount ≥ balance then balance else amount)

def withdraw (emergency : Bool) (env : Env) (s : State) (user asset : Address) (amount : ℤ) :
    Except Fault (State × Reply) := do
  let (s', payout) ← doWithdraw emergency env s user asset amount
  pure (s', ⟨.i128 payout, [.withdraw user asset payout]⟩)

/-- The fee on the withdrawn amount; an emergency unlock of the asset waives it. -/
def exitFee (p : TierParams) (emergency : Bool) (amount : ℤ) : Except Fault ℤ :=
  if emergency then pure 0 else mulFp amount p.exitFeeFp

def doEarlyExit (p : TierParams) (emergency : Bool) (env : Env) (s : State) (user asset : Address)
    (amount : ℤ) : Except Fault (State × ℤ) := do
  let i ← expect (.panic "not initialized") s.inst
  env.requireAuth i.admin
  let balance := s.balance.getD (user, asset) 0
  failIf (amount > balance) VaultError.amountExceedsBalance.fault
  let fee ← exitFee p emergency amount
  let netAmount ← subI128 amount fee
  let s' ← takeOut i s user asset amount
  pure (s', netAmount)

def earlyExit (p : TierParams) (emergency : Bool) (env : Env) (s : State) (user asset : Address)
    (amount : ℤ) : Except Fault (State × Reply) := do
  let (s', netAmount) ← doEarlyExit p emergency env s user asset amount
  pure (s', ⟨.i128 netAmount, [.earlyExit user asset netAmount]⟩)

def setMaxTvl (env : Env) (s : State) (newCap : ℤ) : Except Fault State := do
  let i ← expect (.panic "called `Option::unwrap()` on a `None` value") s.inst
  env.requireAuth i.governance
  pure { s with inst := some { i with maxTvl := newCap } }

def maxTvl (s : State) : ℤ := (s.inst.map Instance.maxTvl).getD DEFAULT_MAX_TVL

def totalBalance (s : State) : ℤ := (s.inst.map Instance.totalBalance).getD 0

def totalShares (s : State) : ℤ := (s.inst.map Instance.totalShares).getD 0

def remainingCapacity (s : State) : Except Fault ℤ := do
  let remaining ← subI128 (maxTvl s) (totalBalance s)
  pure (max remaining 0)

def relock (p : TierParams) (env : Env) (s : State) (user asset : Address) :
    Except Fault (State × ℕ) := do
  let i ← expect (.panic "not initialized") s.inst
  env.requireAuth i.admin
  failIf (env.ledger < s.lockUntil.getD (user, asset) 0) VaultError.notYetMatured.fault
  let newLockUntil ← addU32 env.ledger p.lockDuration
  pure ({ s with lockUntil := s.lockUntil.set (user, asset) newLockUntil }, newLockUntil)

/-- The read-only entry points; none changes the state. -/
def answer (s : State) : Query → Except Fault Value
  | .balance user asset => pure (.i128 (s.balance.getD (user, asset) 0))
  | .shares user asset => pure (.i128 (s.shares.getD (user, asset) 0))
  | .lockUntil user asset => pure (.u32 (s.lockUntil.getD (user, asset) 0))
  | .totalShares => pure (.i128 (totalShares s))
  | .totalBalance => pure (.i128 (totalBalance s))
  | .maxTvl => pure (.i128 (maxTvl s))
  | .remainingCapacity => do
    let remaining ← remainingCapacity s
    pure (.i128 remaining)
  | .emergencyUnlock _ => throw .missingFunction

/-- The operations every locked vault exports, the emergency flags given by `emergency`. -/
def operate (p : TierParams) (emergency : Address → Bool) (env : Env) (s : State) :
    VaultCall → Except Fault (State × Reply)
  | .deposit user asset amount => deposit p env s user asset amount
  | .withdraw user asset amount => withdraw (emergency asset) env s user asset amount
  | .earlyExit user asset amount => earlyExit p (emergency asset) env s user asset amount
  | .relock user asset => do
    let (s', lock) ← relock p env s user asset
    pure (s', ⟨.u32 lock, []⟩)
  | .setMaxTvl newCap => do
    let s' ← setMaxTvl env s newCap
    pure (s', ⟨.unit, []⟩)
  | .query q => do
    let v ← answer s q
    pure (s, ⟨v, []⟩)
  | .initialise _ => throw .missingFunction
  | .setEmergencyUnlock _ _ => throw .missingFunction

end Locked

namespace VaultL6

def MIN_DEPOSIT : ℤ := 1_000_000_000
def MULTIPLIER_FP : ℤ := 11_500_000
def LOCK_DURATION : ℕ := 1_555_200
def EXIT_FEE_FP : ℤ := 125_000

def params : TierParams := ⟨MIN_DEPOSIT, MULTIPLIER_FP, LOCK_DURATION, EXIT_FEE_FP⟩

end VaultL6

namespace VaultL12

def MIN_DEPOSIT : ℤ := 2_500_000_000
def MULTIPLIER_FP : ℤ := 13_000_000
def LOCK_DURATION : ℕ := 3_110_400
def EXIT_FEE_FP : ℤ := 250_000

def params : TierParams := ⟨MIN_DEPOSIT, MULTIPLIER_FP, LOCK_DURATION, EXIT_FEE_FP⟩

end VaultL12

namespace Locked

/-- VaultL6 and VaultL12 export the locked operations, without an emergency flag. -/
def step (p : TierParams) (env : Env) (s : State) : VaultCall → Except Fault (State × Reply)
  | .initialise (.locked admin governance strategy usdc maxTvl) => do
    let s' ← initialise env s admin governance strategy usdc maxTvl
    pure (s', ⟨.unit, []⟩)
  | .initialise _ => throw .missingFunction
  | call => operate p (fun _ => false) env s call

end Locked

namespace VaultL3

def MIN_DEPOSIT : ℤ := 500_000_000
def MULTIPLIER_FP : ℤ := 10_500_000
def LOCK_DURATION : ℕ := 777_600
def EXIT_FEE_FP : ℤ := 50_000

def params : TierParams := ⟨MIN_DEPOSIT, MULTIPLIER_FP, LOCK_DURATION, EXIT_FEE_FP⟩

/-- VaultL3 adds a guardian, written by `initialise`, and a flag for every asset. -/
structure State where
  core : Locked.State
  guardian : Option Address
  emergencyUnlock : Store Address Bool

def State.empty : State := ⟨.empty, none, .empty⟩

def initialise (env : Env) (s : State) (admin governance guardian strategy usdc : Address)
    (maxTvl : ℤ) : Except Fault State := do
  let core ← Locked.initialise env s.core admin governance strategy usdc maxTvl
  pure { s with core, guardian := some guardian }

def setEmergencyUnlock (env : Env) (s : State) (asset : Address) (active : Bool) :
    Except Fault State := do
  let guardian ← expect (.panic "not initialized") s.guardian
  env.requireAuth guardian
  pure { s with emergencyUnlock := s.emergencyUnlock.set asset active }

def emergency (s : State) (asset : Address) : Bool := s.emergencyUnlock.getD asset false

def step (env : Env) (s : State) : VaultCall → Except Fault (State × Reply)
  | .initialise (.guarded admin governance guardian strategy usdc maxTvl) => do
    let s' ← initialise env s admin governance guardian strategy usdc maxTvl
    pure (s', ⟨.unit, []⟩)
  | .initialise _ => throw .missingFunction
  | .setEmergencyUnlock asset active => do
    let s' ← setEmergencyUnlock env s asset active
    pure (s', ⟨.unit, []⟩)
  | .query (.emergencyUnlock asset) => pure (s, ⟨.bool (emergency s asset), []⟩)
  | call => do
    let (core, reply) ← Locked.operate params (emergency s) env s.core call
    pure ({ s with core }, reply)

end VaultL3
end YieldLadder
