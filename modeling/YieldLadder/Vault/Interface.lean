import YieldLadder.Foundation.Store
import YieldLadder.Soroban.Host

/-! # Calls, replies and events of the vaults and their router

Every tier vault is called by symbol. A symbol a vault does not export, or an
`initialise` with another vault's arguments, ends the call.
-/
namespace YieldLadder
open Foundation

/-- A position is keyed by user and asset. -/
abbrev Key := Address × Address

inductive VaultError
  | belowMinDeposit
  | lockNotExpired
  | notYetMatured
  | depositCapExceeded
  | unauthorized
  | amountExceedsBalance
  deriving DecidableEq, Repr

def VaultError.code : VaultError → ℕ
  | belowMinDeposit => 2
  | lockNotExpired => 3
  | notYetMatured => 4
  | depositCapExceeded => 5
  | unauthorized => 6
  | amountExceedsBalance => 7

/-- `panic_with_error!` with one of the vaults' own codes. -/
def VaultError.fault (e : VaultError) : Fault := .error e.code

inductive Event
  | deposit (user asset : Address) (amount : ℤ)
  | withdraw (user asset : Address) (amount : ℤ)
  | earlyExit (user asset : Address) (amount : ℤ)
  | paused (active : Bool)
  | unpaused (active : Bool)
  deriving DecidableEq, Repr

inductive Value
  | unit
  | i128 (x : ℤ)
  | u32 (n : ℕ)
  | bool (b : Bool)
  | address (a : Address)
  | position (principal shares : ℤ) (lockUntil : ℕ)
  | capacity (maxTvl remaining : ℤ)
  deriving DecidableEq, Repr

/-- What `invoke_contract` does with a reply of another type than the one it expects. -/
def Value.asI128 : Value → Except Fault ℤ
  | .i128 x => pure x
  | _ => throw (.panic "ConversionError")

def Value.asU32 : Value → Except Fault ℕ
  | .u32 n => pure n
  | _ => throw (.panic "ConversionError")

@[simp] theorem Value.asI128_eq_ok {v : Value} {x : ℤ} : v.asI128 = .ok x ↔ v = .i128 x := by
  cases v <;> simp [asI128]

@[simp] theorem Value.asU32_eq_ok {v : Value} {n : ℕ} : v.asU32 = .ok n ↔ v = .u32 n := by
  cases v <;> simp [asU32]

structure Reply where
  value : Value
  events : List Event
  deriving DecidableEq, Repr

/-- The three argument lists `initialise` takes, one for each kind of vault. -/
inductive InitArgs
  | flex (admin strategy : Address)
  | locked (admin governance strategy usdc : Address) (maxTvl : ℤ)
  | guarded (admin governance guardian strategy usdc : Address) (maxTvl : ℤ)
  deriving DecidableEq, Repr

inductive Query
  | balance (user asset : Address)
  | shares (user asset : Address)
  | lockUntil (user asset : Address)
  | totalShares
  | totalBalance
  | maxTvl
  | remainingCapacity
  | emergencyUnlock (asset : Address)
  deriving DecidableEq, Repr

inductive VaultCall
  | initialise (args : InitArgs)
  | deposit (user asset : Address) (amount : ℤ)
  | withdraw (user asset : Address) (amount : ℤ)
  | earlyExit (user asset : Address) (amount : ℤ)
  | relock (user asset : Address)
  | setMaxTvl (newCap : ℤ)
  | setEmergencyUnlock (asset : Address) (active : Bool)
  | query (q : Query)
  deriving DecidableEq, Repr

/-- The two calls that take out of a position. -/
inductive Exit
  | withdraw
  | early
  deriving DecidableEq, Repr

def Exit.call (user asset : Address) (amount : ℤ) : Exit → VaultCall
  | .withdraw => .withdraw user asset amount
  | .early => .earlyExit user asset amount

theorem Exit.call_cases {user asset : Address} {amount : ℤ} (e : Exit) :
    e.call user asset amount = .withdraw user asset amount ∨
      e.call user asset amount = .earlyExit user asset amount := by
  cases e with
  | withdraw => exact .inl rfl
  | early => exact .inr rfl

theorem VaultCall.exit_cases {call : VaultCall} {user asset : Address} {amount : ℤ}
    (h : call = .withdraw user asset amount ∨ call = .earlyExit user asset amount) :
    ∃ e : Exit, call = e.call user asset amount := by
  rcases h with rfl | rfl
  · exact ⟨.withdraw, rfl⟩
  · exact ⟨.early, rfl⟩

end YieldLadder
