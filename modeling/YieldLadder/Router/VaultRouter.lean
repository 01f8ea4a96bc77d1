import YieldLadder.Soroban.Token
import YieldLadder.Vault.Tier

/-! # The vault router and the world it runs in

The router is the entry point for users: it moves the tokens and calls the tier
vault of the position by symbol. The world holds the router's storage, every
contract that answers a vault symbol, and the token balances. A call nested in
another one is authorised by the calling contract, whose address is `self`.
-/
namespace YieldLadder
open Foundation

/-- The deposit-asset registry, kept in the router's instance storage. -/
structure Allowlist where
  admin : Option Address
  assets : Store Address Bool

namespace Allowlist

def empty : Allowlist := ⟨none, .empty⟩

def initAllowlist (l : Allowlist) (admin : Address) (initialAssets : List Address) :
    Except Fault Allowlist := do
  failIf (l.admin.isSome = true) (.panic "Allowlist already initialized")
  pure { admin := some admin, assets := initialAssets.foldl (·.set · true) l.assets }

def isAssetAllowed (l : Allowlist) (asset : Address) : Bool := l.assets.getD asset false

def addAsset (env : Env) (l : Allowlist) (admin asset : Address) : Except Fault Allowlist := do
  let savedAdmin ← expect (.panic "Allowlist not initialized") l.admin
  env.requireAuth admin
  failIf (admin ≠ savedAdmin) (.panic "Allowlist: Admin authorization mismatch")
  pure { l with assets := l.assets.set asset true }

def removeAsset (env : Env) (l : Allowlist) (admin asset : Address) : Except Fault Allowlist := do
  let savedAdmin ← expect (.panic "Allowlist not initialized") l.admin
  env.requireAuth admin
  failIf (admin ≠ savedAdmin) (.panic "Allowlist: Admin authorization mismatch")
  pure (if l.assets.get asset = none then l else { l with assets := l.assets.set asset false })

end Allowlist

namespace VaultRouter

def MIN_FLEX : ℤ := 10_000_000
def MIN_L3 : ℤ := 500_000_000
def MIN_L6 : ℤ := 1_000_000_000
def MIN_L12 : ℤ := 2_500_000_000

inductive Error
  | invalidTier
  | belowMinDeposit
  | lockNotExpired
  | assetNotAllowed
  | depositCapExceeded
  | protocolPaused
  | unauthorized
  deriving DecidableEq, Repr

def Error.code : Error → ℕ
  | invalidTier => 1
  | belowMinDeposit => 2
  | lockNotExpired => 3
  | assetNotAllowed => 4
  | depositCapExceeded => 5
  | protocolPaused => 6
  | unauthorized => 7

def Error.fault (e : Error) : Fault := .error e.code

/-- The instance entries `initialise` writes. -/
structure Instance where
  admin : Address
  governance : Address
  guardian : Address
  vaultFlex : Address
  vaultL3 : Address
  vaultL6 : Address
  vaultL12 : Address
  paused : Bool
  deriving DecidableEq, Repr

structure State where
  inst : Option Instance
  allowlist : Allowlist

def State.empty : State := ⟨none, .empty⟩

def Instance.vault (i : Instance) : Tier → Address
  | .flex => i.vaultFlex
  | .l3 => i.vaultL3
  | .l6 => i.vaultL6
  | .l12 => i.vaultL12

@[simp] theorem Instance.vault_paused (i : Instance) (active : Bool) (t : Tier) :
    { i with paused := active }.vault t = i.vault t := by
  cases t <;> rfl

def minDeposit : Tier → ℤ
  | .flex => MIN_FLEX
  | .l3 => MIN_L3
  | .l6 => MIN_L6
  | .l12 => MIN_L12

end VaultRouter

/-- The router, the contracts that answer vault calls, and the tokens. -/
structure World where
  router : VaultRouter.State
  vaults : Address → Option TierVault
  tokens : Tokens

namespace World

/-- `invoke_contract`: the callee runs in `env` and its new state is written back. -/
def invoke (env : Env) (w : World) (callee : Address) (call : VaultCall) :
    Except Fault (World × Reply) := do
  let v ← expect .missingContract (w.vaults callee)
  let (v', reply) ← v.step env call
  pure ({ w with vaults := Function.update w.vaults callee (some v') }, reply)

/-- The same for a read-only entry point, which leaves the callee as it is. -/
def ask (env : Env) (w : World) (callee : Address) (q : Query) : Except Fault Value := do
  let v ← expect .missingContract (w.vaults callee)
  let (_, reply) ← v.step env (.query q)
  pure reply.value

end World

namespace VaultRouter

def unwrap {α : Type} : Option α → Except Fault α :=
  expect (.panic "called `Option::unwrap()` on a `None` value")

def isPaused (s : State) : Bool := (s.inst.map Instance.paused).getD false

def requireNotPaused (s : State) : Except Fault Unit :=
  failIf (isPaused s = true) Error.protocolPaused.fault

def vaultAddr (s : State) (tier : Tier) : Except Fault Address := unwrap (s.inst.map (·.vault tier))

def initialise (s : State) (admin governance guardian : Address) (vaults : Tier → Address)
    (initialAssets : List Address) : Except Fault State := do
  failIf (s.inst.isSome = true) (.panic "already initialized")
  let allowlist ← s.allowlist.initAllowlist admin initialAssets
  pure ⟨some ⟨admin, governance, guardian, vaults .flex, vaults .l3, vaults .l6, vaults .l12, false⟩,
    allowlist⟩

def pause (env : Env) (s : State) : Except Fault (State × Reply) := do
  let i ← expect (.panic "not initialized") s.inst
  env.requireAuth i.guardian
  pure ({ s with inst := some { i with paused := true } }, ⟨.unit, [.paused true]⟩)

def unpause (env : Env) (s : State) : Except Fault (State × Reply) := do
  let i ← expect (.panic "not initialized") s.inst
  env.requireAuth i.guardian
  pure ({ s with inst := some { i with paused := false } }, ⟨.unit, [.unpaused false]⟩)

variable (token : TokenContract) (self : Address)

def deposit (env : Env) (w : World) (user : Address) (tier : Tier) (asset : Address) (amount : ℤ) :
    Except Fault (World × Reply) := do
  requireNotPaused w.router
  env.requireAuth user
  failIf (w.router.allowlist.isAssetAllowed asset = false) Error.assetNotAllowed.fault
  failIf (amount < minDeposit tier) Error.belowMinDeposit.fault
  let vault ← vaultAddr w.router tier
  let tokens ← token.transfer (env.calledBy self) w.tokens asset user vault amount
  let (w', reply) ← World.invoke (env.calledBy self) { w with tokens } vault
    (.deposit user asset amount)
  pure (w', ⟨.unit, reply.events⟩)

def sendPayout (env : Env) (tokens : Tokens) (asset vault user : Address) (payout : ℤ) :
    Except Fault Tokens :=
  if payout > 0 then token.transfer env tokens asset vault user payout else pure tokens

/-- The two exits differ in the symbol they call: the vault answers what it owes, and
the router moves that from the vault to the user when it is positive. -/
def payOut (env : Env) (w : World) (user : Address) (tier : Tier) (asset : Address)
    (call : VaultCall) : Except Fault (World × Reply) := do
  requireNotPaused w.router
  env.requireAuth user
  let vault ← vaultAddr w.router tier
  let (w', reply) ← World.invoke (env.calledBy self) w vault call
  let payout ← reply.value.asI128
  let tokens ← sendPayout token (env.calledBy self) w'.tokens asset vault user payout
  pure ({ w' with tokens }, ⟨.unit, reply.events⟩)

def withdraw (env : Env) (w : World) (user : Address) (tier : Tier) (asset : Address)
    (amount : ℤ) : Except Fault (World × Reply) :=
  payOut token self env w user tier asset (.withdraw user asset amount)

def earlyExit (env : Env) (w : World) (user : Address) (tier : Tier) (asset : Address)
    (amount : ℤ) : Except Fault (World × Reply) :=
  payOut token self env w user tier asset (.earlyExit user asset amount)

def setMaxTvl (env : Env) (w : World) (tier : Tier) (newCap : ℤ) : Except Fault (World × Reply) := do
  let i ← unwrap w.router.inst
  env.requireAuth i.governance
  let (w', reply) ← World.invoke (env.calledBy self) w (i.vault tier) (.setMaxTvl newCap)
  pure (w', ⟨.unit, reply.events⟩)

def vaultCapacity (env : Env) (w : World) (tier : Tier) : Except Fault Value := do
  let vault ← vaultAddr w.router tier
  let maxTvl ← (← World.ask (env.calledBy self) w vault .maxTvl).asI128
  let remaining ← (← World.ask (env.calledBy self) w vault .remainingCapacity).asI128
  pure (.capacity maxTvl remaining)

def relock (env : Env) (w : World) (user : Address) (tier : Tier) (asset : Address) :
    Except Fault (World × Reply) := do
  env.requireAuth user
  failIf (tier = .flex) (.panic "relock not supported for Flex tier")
  let vault ← vaultAddr w.router tier
  let (w', reply) ← World.invoke (env.calledBy self) w vault (.relock user asset)
  let lock ← reply.value.asU32
  pure (w', ⟨.u32 lock, reply.events⟩)

def position (env : Env) (w : World) (user : Address) (tier : Tier) (asset : Address) :
    Except Fault Value := do
  let vault ← vaultAddr w.router tier
  let principal ← (← World.ask (env.calledBy self) w vault (.balance user asset)).asI128
  let shares ← (← World.ask (env.calledBy self) w vault (.shares user asset)).asI128
  let lockUntil ← if tier = .flex then pure 0
    else do (← World.ask (env.calledBy self) w vault (.lockUntil user asset)).asU32
  pure (.position principal shares lockUntil)

inductive Call
  | initialise (admin governance guardian : Address) (vaults : Tier → Address)
      (initialAssets : List Address)
  | pause
  | unpause
  | isPaused
  | deposit (user : Address) (tier : Tier) (asset : Address) (amount : ℤ)
  | withdraw (user : Address) (tier : Tier) (asset : Address) (amount : ℤ)
  | earlyExit (user : Address) (tier : Tier) (asset : Address) (amount : ℤ)
  | setMaxTvl (tier : Tier) (newCap : ℤ)
  | vaultCapacity (tier : Tier)
  | relock (user : Address) (tier : Tier) (asset : Address)
  | addDepositAsset (admin asset : Address)
  | removeDepositAsset (admin asset : Address)
  | isDepositAssetAllowed (asset : Address)
  | position (user : Address) (tier : Tier) (asset : Address)
  | getAdmin
  | getGuardian
  | getVault (tier : Tier)

def step (env : Env) (w : World) : Call → Except Fault (World × Reply)
  | .initialise admin governance guardian vaults initialAssets => do
    let router ← initialise w.router admin governance guardian vaults initialAssets
    pure ({ w with router }, ⟨.unit, []⟩)
  | .pause => do
    let (router, reply) ← pause env w.router
    pure ({ w with router }, reply)
  | .unpause => do
    let (router, reply) ← unpause env w.router
    pure ({ w with router }, reply)
  | .isPaused => pure (w, ⟨.bool (VaultRouter.isPaused w.router), []⟩)
  | .deposit user tier asset amount => deposit token self env w user tier asset amount
  | .withdraw user tier asset amount => withdraw token self env w user tier asset amount
  | .earlyExit user tier asset amount => earlyExit token self env w user tier asset amount
  | .setMaxTvl tier newCap => setMaxTvl self env w tier newCap
  | .vaultCapacity tier => do
    let value ← vaultCapacity self env w tier
    pure (w, ⟨value, []⟩)
  | .relock user tier asset => relock self env w user tier asset
  | .addDepositAsset admin asset => do
    let allowlist ← w.router.allowlist.addAsset env admin asset
    pure ({ w with router.allowlist := allowlist }, ⟨.unit, []⟩)
  | .removeDepositAsset admin asset => do
    let allowlist ← w.router.allowlist.removeAsset env admin asset
    pure ({ w with router.allowlist := allowlist }, ⟨.unit, []⟩)
  | .isDepositAssetAllowed asset => pure (w, ⟨.bool (w.router.allowlist.isAssetAllowed asset), []⟩)
  | .position user tier asset => do
    let value ← position self env w user tier asset
    pure (w, ⟨value, []⟩)
  | .getAdmin => do
    let i ← unwrap w.router.inst
    pure (w, ⟨.address i.admin, []⟩)
  | .getGuardian => do
    let i ← unwrap w.router.inst
    pure (w, ⟨.address i.guardian, []⟩)
  | .getVault tier => do
    let vault ← vaultAddr w.router tier
    pure (w, ⟨.address vault, []⟩)

end VaultRouter

namespace World

/-- What can be called from outside: the router, a vault directly, or a token transfer. -/
inductive Action
  | router (call : VaultRouter.Call)
  | vault (callee : Address) (call : VaultCall)
  | transfer (asset src dst : Address) (amount : ℤ)

abbrev Invocation := Env × Action

def exec (rule : TokenRule) (self : Address) (w : World) : Invocation → Except Fault (World × Reply)
  | (env, .router call) => VaultRouter.step rule self env w call
  | (env, .vault callee call) => w.invoke env callee call
  | (env, .transfer asset src dst amount) => do
    let tokens ← Tokens.transfer rule env w.tokens asset src dst amount
    pure ({ w with tokens }, ⟨.unit, []⟩)

end World
end YieldLadder
