import YieldLadder.Foundation.Dict
import YieldLadder.Soroban.Token

/-! # The strategy vault

The strategy vault holds the working capital in one token and sends it to the
pools of its allocation map. It keeps its settings in instance storage and reads
its capital off the token, so a run is over the settings and the balances.
-/
namespace YieldLadder.StrategyVault
open Foundation

def MAX_ALLOC_BPS : ℤ := 3_500
def BPS_DENOM : ℤ := 10_000

/-- 5 % of the capital stays idle unless governance says otherwise. -/
def DEFAULT_BUFFER_BPS : ℤ := 500

structure Instance where
  admin : Address
  usdc : Address
  harvester : Option Address
  allocations : Dict Address ℤ
  tierVaults : Store Address Bool
  poolAllowlist : Store Address Bool
  bufferBps : ℤ

structure World where
  inst : Option Instance
  tokens : Tokens

inductive Value
  | unit
  | i128 (x : ℤ)
  | allocations (entries : List (Address × ℤ))
  deriving DecidableEq, Repr

def unwrap {α : Type} : Option α → Except Fault α :=
  expect (.panic "called `Option::unwrap()` on a `None` value")

def checked (message : String) (x : ℤ) : Except Fault ℤ :=
  if InI128 x then .ok x else .error (.panic message)

def saturatingSub (a b : ℤ) : ℤ := max i128Min (min i128Max (a - b))

def requireAdmin (env : Env) (i : Instance) : Except Fault Unit := env.requireAuth i.admin

def initialise (w : World) (admin usdcToken : Address) : Except Fault World := do
  failIf (w.inst.isSome = true) (.panic "already initialized")
  pure { w with inst := some ⟨admin, usdcToken, none, .empty, .empty, .empty, DEFAULT_BUFFER_BPS⟩ }

def setHarvester (env : Env) (w : World) (harvester : Address) : Except Fault World := do
  let i ← unwrap w.inst
  requireAdmin env i
  pure { w with inst := some { i with harvester := some harvester } }

def registerTierVault (env : Env) (w : World) (vault : Address) : Except Fault World := do
  let i ← unwrap w.inst
  requireAdmin env i
  pure { w with inst := some { i with tierVaults := i.tierVaults.set vault true } }

def allowPool (env : Env) (w : World) (pool : Address) : Except Fault World := do
  let i ← unwrap w.inst
  requireAdmin env i
  pure { w with inst := some { i with poolAllowlist := i.poolAllowlist.set pool true } }

def setBufferBps (env : Env) (w : World) (bps : ℤ) : Except Fault World := do
  let i ← unwrap w.inst
  requireAdmin env i
  failIf (bps < 0 ∨ bps > BPS_DENOM) (.panic "buffer_bps must be in [0, 10000]")
  pure { w with inst := some { i with bufferBps := bps } }

def bufferBps (w : World) : ℤ := (w.inst.map Instance.bufferBps).getD DEFAULT_BUFFER_BPS

variable (rule : TokenRule) (self : Address)

def idleBalance (w : World) : Except Fault ℤ := do
  let i ← unwrap w.inst
  pure (w.tokens i.usdc self)

def totalCapital (w : World) : Except Fault ℤ := do
  let i ← unwrap w.inst
  pure (w.tokens i.usdc self)

def depositCapital (env : Env) (w : World) (caller : Address) (amount : ℤ) : Except Fault World := do
  env.requireAuth caller
  let i ← unwrap w.inst
  failIf (i.tierVaults.getD caller false = false) (.panic "caller is not a registered tier vault")
  let tokens ← Tokens.transfer rule (env.calledBy self) w.tokens i.usdc caller self amount
  pure { w with tokens }

def withdrawCapital (env : Env) (w : World) (caller : Address) (amount : ℤ) : Except Fault World := do
  env.requireAuth caller
  let i ← unwrap w.inst
  failIf (i.tierVaults.getD caller false = false) (.panic "caller is not a registered tier vault")
  failIf (amount > w.tokens i.usdc self)
    (.panic "withdrawal exceeds idle buffer; pool liquidity pull not yet supported")
  let tokens ← Tokens.transfer rule (env.calledBy self) w.tokens i.usdc self caller amount
  pure { w with tokens }

def othersTotal (pool : Address) (entries : List (Address × ℤ)) : Except Fault ℤ :=
  entries.foldlM (fun total e =>
    if e.1 ≠ pool then checked "allocation sum overflow" (total + e.2) else pure total) 0

def setAllocation (env : Env) (w : World) (pool : Address) (targetBps : ℤ) : Except Fault World := do
  let i ← unwrap w.inst
  requireAdmin env i
  failIf (i.poolAllowlist.getD pool false = false) (.panic "pool not on allowlist")
  failIf (targetBps > MAX_ALLOC_BPS) (.panic "allocation exceeds 35% cap")
  let others ← othersTotal pool i.allocations.entries
  let total ← checked "allocation sum overflow" (others + targetBps)
  failIf (total > BPS_DENOM) (.panic "total allocation exceeds 100%")
  pure { w with inst := some { i with allocations := i.allocations.set pool targetBps } }

def allocations (w : World) : List (Address × ℤ) :=
  (w.inst.map fun i => i.allocations.entries).getD []

/-- One turn of the loop of `rebalance`: the target of one entry is sent to its pool. -/
def sendTarget (env : Env) (usdc : Address) (deployable : ℤ) (tokens : Tokens)
    (entry : Address × ℤ) : Except Fault Tokens := do
  let product ← checked "rebalance overflow" (deployable * entry.2)
  let target ← divI128 product BPS_DENOM
  if target > 0 then Tokens.transfer rule (env.calledBy self) tokens usdc self entry.1 target
  else pure tokens

def rebalance (env : Env) (w : World) : Except Fault World := do
  let i ← unwrap w.inst
  let harvester ← unwrap i.harvester
  env.requireAuth harvester
  let total := w.tokens i.usdc self
  let product ← checked "buffer calc overflow" (total * i.bufferBps)
  let reserved ← divI128 product BPS_DENOM
  let deployable := saturatingSub total reserved
  let tokens ← i.allocations.entries.foldlM (sendTarget rule self env i.usdc deployable) w.tokens
  pure { w with tokens }

inductive Call
  | initialise (admin usdcToken : Address)
  | setHarvester (harvester : Address)
  | registerTierVault (vault : Address)
  | allowPool (pool : Address)
  | setBufferBps (bps : ℤ)
  | bufferBps
  | idleBalance
  | depositCapital (caller : Address) (amount : ℤ)
  | withdrawCapital (caller : Address) (amount : ℤ)
  | setAllocation (pool : Address) (targetBps : ℤ)
  | allocations
  | totalCapital
  | rebalance
  deriving DecidableEq, Repr

def silent (r : Except Fault World) : Except Fault (World × Value) := do
  let w ← r
  pure (w, .unit)

def step (env : Env) (w : World) : Call → Except Fault (World × Value)
  | .initialise admin usdcToken => silent (initialise w admin usdcToken)
  | .setHarvester harvester => silent (setHarvester env w harvester)
  | .registerTierVault vault => silent (registerTierVault env w vault)
  | .allowPool pool => silent (allowPool env w pool)
  | .setBufferBps bps => silent (setBufferBps env w bps)
  | .bufferBps => pure (w, .i128 (bufferBps w))
  | .idleBalance => do
    let idle ← idleBalance self w
    pure (w, .i128 idle)
  | .depositCapital caller amount => silent (depositCapital rule self env w caller amount)
  | .withdrawCapital caller amount => silent (withdrawCapital rule self env w caller amount)
  | .setAllocation pool targetBps => silent (setAllocation env w pool targetBps)
  | .allocations => pure (w, .allocations (allocations w))
  | .totalCapital => do
    let total ← totalCapital self w
    pure (w, .i128 total)
  | .rebalance => silent (rebalance rule self env w)

@[simp] theorem checked_eq_ok {message : String} {x y : ℤ} :
    checked message x = .ok y ↔ InI128 x ∧ x = y := by
  unfold checked
  split <;> simp_all

@[simp] theorem silent_eq_ok {x : Except Fault World} {r : World × Value} :
    silent x = .ok r ↔ ∃ w, x = .ok w ∧ (w, Value.unit) = r := by
  simp [silent]

end YieldLadder.StrategyVault
