import YieldLadder.Governance.Timelock

/-! # The guardian multisig in front of its governance contracts

Owners confirm a veto of a proposal of some governance contract; the confirmation
that reaches the threshold sends the veto and clears the list. The composition
holds the multisig and every governance contract it may call, by address.
-/
namespace YieldLadder
open Foundation

namespace GuardianMultisig

/-- Confirmations are collected for a governance contract and a proposal id. -/
abbrev Target := Address × ℕ

structure Instance where
  owners : List Address
  threshold : ℕ
  deriving DecidableEq, Repr

structure State where
  inst : Option Instance
  confirmations : Store Target (List Address)

def State.empty : State := ⟨none, .empty⟩

def initialise (s : State) (owners : List Address) (threshold : ℕ) : Except Fault State := do
  failIf (s.inst.isSome = true) (.panic "already initialized")
  failIf (owners = []) (.panic "owners list must not be empty")
  failIf (owners.length > 10) (.panic "at most 10 owners allowed")
  failIf (threshold = 0 ∨ threshold > owners.length) (.panic "threshold must be in [1, owners.len()]")
  pure { s with inst := some ⟨owners, threshold⟩ }

def confirmationCount (s : State) (target : Target) : ℕ := (s.confirmations.getD target []).length

end GuardianMultisig

/-- The multisig and the governance contracts, at their addresses. -/
structure Council where
  multisig : GuardianMultisig.State
  governances : Address → Option Governance.State

namespace GuardianMultisig

variable (self : Address)

def sendVeto (env : Env) (w : Council) (target : Target) : Except Fault Council := do
  let g ← expect .missingContract (w.governances target.1)
  let g' ← Governance.veto env g target.2
  pure { w with governances := Function.update w.governances target.1 (some g') }

/-- Below the threshold the confirmation is stored; the one that reaches it sends the veto
and removes the list. The reply says whether a veto was sent. -/
def confirmVeto (env : Env) (w : Council) (owner governanceContract : Address) (proposalId : ℕ) :
    Except Fault (Council × Bool) := do
  env.requireAuth owner
  let i ← expect (.panic "not initialized") w.multisig.inst
  failIf (owner ∉ i.owners) (.panic "caller is not a registered owner")
  let target := (governanceContract, proposalId)
  let confirmations := w.multisig.confirmations.getD target []
  failIf (owner ∈ confirmations) (.panic "already confirmed")
  let confirmations := confirmations ++ [owner]
  let stored := w.multisig.confirmations.set target confirmations
  if confirmations.length ≥ i.threshold then do
    let w' ← sendVeto (env.calledBy self) { w with multisig.confirmations := stored } target
    pure ({ w' with multisig.confirmations := stored.remove target }, true)
  else pure ({ w with multisig.confirmations := stored }, false)

end GuardianMultisig

namespace Council
open GuardianMultisig

inductive Value
  | unit
  | dispatched (sent : Bool)
  | count (n : ℕ)
  | owners (list : List Address)
  | governance (reply : Governance.Reply)
  deriving DecidableEq, Repr

/-- What can be called from outside: the multisig, or one of the governance contracts. -/
inductive Call
  | initialise (owners : List Address) (threshold : ℕ)
  | confirmVeto (owner governanceContract : Address) (proposalId : ℕ)
  | confirmationCount (governanceContract : Address) (proposalId : ℕ)
  | owners
  | threshold
  | governance (callee : Address) (call : Governance.Call)
  deriving DecidableEq, Repr

structure Invocation where
  env : Env
  external : Governance.Message → Except Fault Unit
  call : Call

def exec (self : Address) (w : Council) (c : Invocation) : Except Fault (Council × Value) :=
  match c.call with
  | .initialise owners threshold => do
    let multisig ← GuardianMultisig.initialise w.multisig owners threshold
    pure ({ w with multisig }, .unit)
  | .confirmVeto owner governanceContract proposalId => do
    let (w', sent) ← confirmVeto self c.env w owner governanceContract proposalId
    pure (w', .dispatched sent)
  | .confirmationCount governanceContract proposalId =>
    pure (w, .count (GuardianMultisig.confirmationCount w.multisig (governanceContract, proposalId)))
  | .owners => do
    let i ← expect (.panic "not initialized") w.multisig.inst
    pure (w, .owners i.owners)
  | .threshold => do
    let i ← expect (.panic "not initialized") w.multisig.inst
    pure (w, .count i.threshold)
  | .governance callee call => do
    let g ← expect .missingContract (w.governances callee)
    let (g', reply) ← Governance.exec g ⟨c.env, c.external, call⟩
    pure ({ w with governances := Function.update w.governances callee (some g') }, .governance reply)

end Council
end YieldLadder
