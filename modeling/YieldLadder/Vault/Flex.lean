import YieldLadder.Vault.Interface

/-! # The flexible tier vault

VaultFlex has no lock, no cap and no fee: `early_exit` is `withdraw` with another
event. Its deposits record the shared checkpoint, which no withdrawal removes.
-/
namespace YieldLadder

/-- `shared::checkpoint`: yield accrues from the ledger after the deposit. -/
def recordDepositCheckpoint (env : Env) (checkpoint : Foundation.Store Key ℕ)
    (user asset : Address) : Except Fault (Foundation.Store Key ℕ) := do
  let nextEligibleLedger ← if env.ledger + 1 < 2 ^ 32 then pure (env.ledger + 1)
    else throw (.panic "Ledger max seq overflow")
  pure (checkpoint.set (user, asset) nextEligibleLedger)

def isEligibleForYield (env : Env) (checkpoint : Foundation.Store Key ℕ)
    (user asset : Address) : Bool :=
  match checkpoint.get (user, asset) with
  | none => false
  | some activationLedger => decide (env.ledger ≥ activationLedger)

namespace VaultFlex
open Foundation

structure Instance where
  admin : Address
  strategy : Address
  totalShares : ℤ
  totalBalance : ℤ
  deriving DecidableEq, Repr

structure State where
  inst : Option Instance
  balance : Store Key ℤ
  shares : Store Key ℤ
  checkpoint : Store Key ℕ

def State.empty : State := ⟨none, .empty, .empty, .empty⟩

def initialise (s : State) (admin strategy : Address) : Except Fault State := do
  failIf (s.inst.isSome = true) (.panic "VaultFlex: Contract instance already initialized")
  pure { s with inst := some ⟨admin, strategy, 0, 0⟩ }

def deposit (env : Env) (s : State) (user asset : Address) (amount : ℤ) :
    Except Fault (State × Reply) := do
  let i ← expect (.panic "Uninitialized") s.inst
  env.requireAuth i.admin
  failIf (amount < SCALING_FACTOR)
    (.panic "VaultFlex: Deposit amount below minimum requirement of 1 USDC")
  let structuralShares := amount
  let newBalance ← addI128 (s.balance.getD (user, asset) 0) amount
  let newShares ← addI128 (s.shares.getD (user, asset) 0) structuralShares
  let totalShares ← addI128 i.totalShares structuralShares
  let totalBalance ← addI128 i.totalBalance amount
  let checkpoint ← recordDepositCheckpoint env s.checkpoint user asset
  pure ({ inst := some { i with totalShares, totalBalance }
          balance := s.balance.set (user, asset) newBalance
          shares := s.shares.set (user, asset) newShares
          checkpoint },
    ⟨.unit, [.deposit user asset amount]⟩)

def doWithdraw (env : Env) (s : State) (user asset : Address) (amount : ℤ) :
    Except Fault (State × ℤ) := do
  let i ← expect (.panic "Uninitialized") s.inst
  env.requireAuth i.admin
  let balance := s.balance.getD (user, asset) 0
  let userShares := s.shares.getD (user, asset) 0
  failIf (userShares ≤ 0 ∨ balance ≤ 0)
    (.panic "VaultFlex: Zero share profile detected or double-withdraw requested")
  failIf (amount > balance) (.panic "VaultFlex: withdrawal amount exceeds balance")
  if amount ≥ balance then do
    let totalShares ← subI128 i.totalShares userShares
    let totalBalance ← subI128 i.totalBalance balance
    pure ({ s with
            inst := some { i with totalShares, totalBalance := max totalBalance 0 }
            balance := s.balance.remove (user, asset)
            shares := s.shares.remove (user, asset) }, balance)
  else do
    let product ← mulI128 userShares amount
    let sharesToBurn ← divI128 product balance
    let newBalance ← subI128 balance amount
    let newShares ← subI128 userShares sharesToBurn
    let totalShares ← subI128 i.totalShares sharesToBurn
    let totalBalance ← subI128 i.totalBalance amount
    pure ({ s with
            inst := some { i with totalShares, totalBalance }
            balance := s.balance.set (user, asset) newBalance
            shares := s.shares.set (user, asset) newShares }, amount)

def withdraw (env : Env) (s : State) (user asset : Address) (amount : ℤ) :
    Except Fault (State × Reply) := do
  let (s', payout) ← doWithdraw env s user asset amount
  pure (s', ⟨.i128 payout, [.withdraw user asset payout]⟩)

def earlyExit (env : Env) (s : State) (user asset : Address) (amount : ℤ) :
    Except Fault (State × Reply) := do
  let (s', payout) ← doWithdraw env s user asset amount
  pure (s', ⟨.i128 payout, [.earlyExit user asset payout]⟩)

def totalShares (s : State) : ℤ := (s.inst.map Instance.totalShares).getD 0

def totalBalance (s : State) : ℤ := (s.inst.map Instance.totalBalance).getD 0

/-- The read-only entry points; `lock_until` is zero for every position. -/
def answer (s : State) : Query → Except Fault Value
  | .balance user asset => pure (.i128 (s.balance.getD (user, asset) 0))
  | .shares user asset => pure (.i128 (s.shares.getD (user, asset) 0))
  | .lockUntil _ _ => pure (.u32 0)
  | .totalShares => pure (.i128 (totalShares s))
  | .totalBalance => pure (.i128 (totalBalance s))
  | .maxTvl => throw .missingFunction
  | .remainingCapacity => throw .missingFunction
  | .emergencyUnlock _ => throw .missingFunction

def step (env : Env) (s : State) : VaultCall → Except Fault (State × Reply)
  | .initialise (.flex admin strategy) => do
    let s' ← initialise s admin strategy
    pure (s', ⟨.unit, []⟩)
  | .initialise _ => throw .missingFunction
  | .deposit user asset amount => deposit env s user asset amount
  | .withdraw user asset amount => withdraw env s user asset amount
  | .earlyExit user asset amount => earlyExit env s user asset amount
  | .relock _ _ => throw .missingFunction
  | .setMaxTvl _ => throw .missingFunction
  | .setEmergencyUnlock _ _ => throw .missingFunction
  | .query q => do
    let v ← answer s q
    pure (s, ⟨v, []⟩)

end VaultFlex
end YieldLadder
