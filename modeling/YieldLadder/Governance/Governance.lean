import YieldLadder.Foundation.Machine
import YieldLadder.Foundation.Store
import YieldLadder.Soroban.Host

/-! # Governance

The strategist proposes, the guardian vetoes, anyone executes once the timelock
has passed. What another contract answers to a message is part of the invocation:
it may let the message through or fault, and a fault reverts the whole call.
-/
namespace YieldLadder.Governance
open Foundation

/-- 72 hours at about five seconds a ledger. -/
def TIMELOCK_LEDGERS : ℕ := 51_840

inductive TierParam
  | minDeposit
  | multiplier
  | exitFeeBps
  | maxTvl
  deriving DecidableEq, Repr

inductive ProposalAction
  | setAllocation (pool : Address) (targetBps : ℤ)
  | updateStrategist (newStrategist : Address)
  | updateGuardian (newGuardian : Address)
  | updateTierParam (tierVault : Address) (param : TierParam) (value : ℤ)
  deriving DecidableEq, Repr

inductive ProposalStatus
  | pending
  | executed
  | vetoed
  deriving DecidableEq, Repr

structure Proposal where
  id : ℕ
  action : ProposalAction
  proposedAtLedger : ℕ
  status : ProposalStatus
  deriving DecidableEq, Repr

/-- The instance entries `initialise` writes. -/
structure Instance where
  strategist : Address
  guardian : Address
  strategyVault : Address
  nextId : ℕ
  deriving DecidableEq, Repr

structure State where
  inst : Option Instance
  proposals : Store ℕ Proposal

def State.empty : State := ⟨none, .empty⟩

/-- The messages `execute` sends to other contracts. -/
inductive Message
  | setAllocation (callee pool : Address) (targetBps : ℤ)
  | setTierParam (callee : Address) (param : TierParam) (value : ℤ)
  deriving DecidableEq, Repr

inductive Value
  | unit
  | u32 (n : ℕ)
  | proposal (p : Proposal)
  | address (a : Address)
  deriving DecidableEq, Repr

structure Reply where
  value : Value
  sent : List Message
  deriving DecidableEq, Repr

def initialise (s : State) (strategist guardian strategyVault : Address) : Except Fault State := do
  failIf (s.inst.isSome = true) (.panic "already initialized")
  pure { s with inst := some ⟨strategist, guardian, strategyVault, 0⟩ }

/-- A `SetAllocation` proposal asks for a share between nothing and all. -/
def ProposalAction.InRange : ProposalAction → Prop
  | .setAllocation _ bps => 0 ≤ bps ∧ bps ≤ 10_000
  | _ => True

instance : (a : ProposalAction) → Decidable a.InRange
  | .setAllocation _ _ => inferInstanceAs (Decidable (_ ∧ _))
  | .updateStrategist _ => inferInstanceAs (Decidable True)
  | .updateGuardian _ => inferInstanceAs (Decidable True)
  | .updateTierParam _ _ _ => inferInstanceAs (Decidable True)

def propose (env : Env) (s : State) (action : ProposalAction) : Except Fault (State × ℕ) := do
  let i ← expect (.panic "not initialized") s.inst
  env.requireAuth i.strategist
  failIf (¬action.InRange) (.panic "target_bps must be in [0, 10000]")
  let nextId ← addU32 i.nextId 1
  let proposal := ⟨i.nextId, action, env.ledger, .pending⟩
  pure ({ inst := some { i with nextId }, proposals := s.proposals.set i.nextId proposal }, i.nextId)

def veto (env : Env) (s : State) (proposalId : ℕ) : Except Fault State := do
  let i ← expect (.panic "not initialized") s.inst
  env.requireAuth i.guardian
  let proposal ← expect (.panic "proposal not found") (s.proposals.get proposalId)
  failIf (proposal.status ≠ .pending) (.panic "proposal is not pending")
  pure { s with proposals := s.proposals.set proposalId { proposal with status := .vetoed } }

/-- The action of a proposal: a message to another contract, or a role of this one. -/
def perform (external : Message → Except Fault Unit) (s : State) :
    ProposalAction → Except Fault (State × List Message)
  | .setAllocation pool targetBps => do
    let i ← expect (.panic "not initialized") s.inst
    external (.setAllocation i.strategyVault pool targetBps)
    pure (s, [.setAllocation i.strategyVault pool targetBps])
  | .updateStrategist newStrategist =>
    pure ({ s with inst := s.inst.map ({ · with strategist := newStrategist }) }, [])
  | .updateGuardian newGuardian =>
    pure ({ s with inst := s.inst.map ({ · with guardian := newGuardian }) }, [])
  | .updateTierParam tierVault param value => do
    external (.setTierParam tierVault param value)
    pure (s, [.setTierParam tierVault param value])

def execute (external : Message → Except Fault Unit) (env : Env) (s : State) (proposalId : ℕ) :
    Except Fault (State × List Message) := do
  let proposal ← expect (.panic "proposal not found") (s.proposals.get proposalId)
  failIf (proposal.status ≠ .pending) (.panic "proposal is not pending")
  failIf (env.ledger - proposal.proposedAtLedger < TIMELOCK_LEDGERS) (.panic "timelock not elapsed")
  let (s', sent) ← perform external s proposal.action
  pure ({ s' with proposals := s'.proposals.set proposalId { proposal with status := .executed } }, sent)

inductive Call
  | initialise (strategist guardian strategyVault : Address)
  | propose (action : ProposalAction)
  | veto (proposalId : ℕ)
  | execute (proposalId : ℕ)
  | proposal (proposalId : ℕ)
  | strategist
  | guardian
  deriving DecidableEq, Repr

/-- A call, the environment it is made in, and what the other contracts answer during it. -/
structure Invocation where
  env : Env
  external : Message → Except Fault Unit
  call : Call

def exec (s : State) (c : Invocation) : Except Fault (State × Reply) :=
  match c.call with
  | .initialise strategist guardian strategyVault => do
    let s' ← initialise s strategist guardian strategyVault
    pure (s', ⟨.unit, []⟩)
  | .propose action => do
    let (s', id) ← propose c.env s action
    pure (s', ⟨.u32 id, []⟩)
  | .veto proposalId => do
    let s' ← veto c.env s proposalId
    pure (s', ⟨.unit, []⟩)
  | .execute proposalId => do
    let (s', sent) ← execute c.external c.env s proposalId
    pure (s', ⟨.unit, sent⟩)
  | .proposal proposalId => do
    let p ← expect (.panic "proposal not found") (s.proposals.get proposalId)
    pure (s, ⟨.proposal p, []⟩)
  | .strategist => do
    let i ← expect (.panic "not initialized") s.inst
    pure (s, ⟨.address i.strategist, []⟩)
  | .guardian => do
    let i ← expect (.panic "not initialized") s.inst
    pure (s, ⟨.address i.guardian, []⟩)

/-- What the action of a proposal does to the roles. -/
def ProposalAction.roles (action : ProposalAction) (i : Instance) : Instance :=
  match action with
  | .updateStrategist newStrategist => { i with strategist := newStrategist }
  | .updateGuardian newGuardian => { i with guardian := newGuardian }
  | _ => i

/-- The messages the action of a proposal sends. -/
def ProposalAction.messages (action : ProposalAction) (i : Instance) : List Message :=
  match action with
  | .setAllocation pool targetBps => [.setAllocation i.strategyVault pool targetBps]
  | .updateTierParam tierVault param value => [.setTierParam tierVault param value]
  | _ => []

/-- What a successful call does to an initialised contract. -/
inductive Effect (env : Env) (i : Instance) (s s' : State) : Call → Reply → Prop
  | propose (action : ProposalAction) (hauth : env.Authorized i.strategist)
      (hinst : s'.inst = some { i with nextId := i.nextId + 1 })
      (hp : s'.proposals = s.proposals.set i.nextId ⟨i.nextId, action, env.ledger, .pending⟩) :
      Effect env i s s' (.propose action) ⟨.u32 i.nextId, []⟩
  | veto (id : ℕ) (p : Proposal) (hauth : env.Authorized i.guardian)
      (hget : s.proposals.get id = some p) (hpending : p.status = .pending)
      (hinst : s'.inst = some i)
      (hp : s'.proposals = s.proposals.set id { p with status := .vetoed }) :
      Effect env i s s' (.veto id) ⟨.unit, []⟩
  | execute (id : ℕ) (p : Proposal) (hget : s.proposals.get id = some p)
      (hpending : p.status = .pending)
      (htime : TIMELOCK_LEDGERS ≤ env.ledger - p.proposedAtLedger)
      (hinst : s'.inst = some (p.action.roles i))
      (hp : s'.proposals = s.proposals.set id { p with status := .executed }) :
      Effect env i s s' (.execute id) ⟨.unit, p.action.messages i⟩
  | read (call : Call) (reply : Reply) (hs : s' = s) (hsent : reply.sent = [])
      (hpropose : ∀ action, call ≠ .propose action) (hveto : ∀ id, call ≠ .veto id)
      (hexecute : ∀ id, call ≠ .execute id) : Effect env i s s' call reply

variable {s s' : State} {i : Instance} {c : Invocation} {r : State × Reply} {action : ProposalAction}

theorem perform_ok {external : Message → Except Fault Unit} {q : State × List Message}
    (hi : s.inst = some i) (h : perform external s action = .ok q) :
    q.1.inst = some (action.roles i) ∧ q.1.proposals = s.proposals ∧ q.2 = action.messages i := by
  cases action with
  | setAllocation pool targetBps =>
    simp only [perform, bind_eq_ok, expect_eq_ok, pure_eq_ok, hi, Option.some.injEq] at h
    obtain ⟨_, rfl, _, _, rfl⟩ := h
    exact ⟨hi, rfl, rfl⟩
  | updateStrategist newStrategist =>
    obtain rfl := pure_eq_ok.mp h
    exact ⟨by rw [hi]; rfl, rfl, rfl⟩
  | updateGuardian newGuardian =>
    obtain rfl := pure_eq_ok.mp h
    exact ⟨by rw [hi]; rfl, rfl, rfl⟩
  | updateTierParam tierVault param value =>
    simp only [perform, bind_eq_ok, pure_eq_ok] at h
    obtain ⟨_, _, rfl⟩ := h
    exact ⟨hi, rfl, rfl⟩

theorem exec_effect (hi : s.inst = some i) (h : exec s c = .ok r) :
    Effect c.env i s r.1 c.call r.2 := by
  obtain ⟨env, external, call⟩ := c
  cases call with
  | initialise strategist guardian strategyVault =>
    simp only [exec, initialise, bind_eq_ok, failIf_eq_ok, hi] at h
    obtain ⟨_, ⟨_, hno, _⟩, _⟩ := h
    simp at hno
  | propose action =>
    simp only [exec, propose, bind_eq_ok, expect_eq_ok, Env.requireAuth_eq_ok, failIf_eq_ok,
      addU32_eq_ok, pure_eq_ok, hi, Option.some.injEq] at h
    obtain ⟨_, ⟨_, rfl, _, hauth, _, _, _, ⟨_, rfl⟩, rfl⟩, rfl⟩ := h
    exact .propose action hauth rfl rfl
  | veto id =>
    simp only [exec, veto, bind_eq_ok, expect_eq_ok, Env.requireAuth_eq_ok, failIf_eq_ok,
      pure_eq_ok, hi, Option.some.injEq, ne_eq, not_not] at h
    obtain ⟨_, ⟨_, rfl, _, hauth, p, hget, _, hpending, rfl⟩, rfl⟩ := h
    exact .veto id p hauth hget hpending rfl rfl
  | execute id =>
    simp only [exec, execute, bind_eq_ok, expect_eq_ok, failIf_eq_ok, pure_eq_ok, ne_eq,
      not_not, not_lt] at h
    obtain ⟨_, ⟨p, hget, _, hpending, _, htime, q, hq, rfl⟩, rfl⟩ := h
    obtain ⟨hinst, hp, hsent⟩ := perform_ok hi hq
    dsimp only
    rw [hsent]
    exact .execute id p hget hpending htime hinst (by rw [hp])
  | proposal id =>
    simp only [exec, bind_eq_ok, pure_eq_ok] at h
    obtain ⟨_, _, rfl⟩ := h
    exact .read _ _ rfl rfl (by simp) (by simp) (by simp)
  | strategist =>
    simp only [exec, bind_eq_ok, pure_eq_ok] at h
    obtain ⟨_, _, rfl⟩ := h
    exact .read _ _ rfl rfl (by simp) (by simp) (by simp)
  | guardian =>
    simp only [exec, bind_eq_ok, pure_eq_ok] at h
    obtain ⟨_, _, rfl⟩ := h
    exact .read _ _ rfl rfl (by simp) (by simp) (by simp)

end YieldLadder.Governance
