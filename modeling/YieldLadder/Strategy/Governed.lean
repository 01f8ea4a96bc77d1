import YieldLadder.Governance.Governance
import YieldLadder.Strategy.Allocation

/-! # The strategy vault under the governance contract

The admin of the strategy vault is the governance contract, whose authorization is
only ever its own direct call. Governance originates `set_allocation` and
`set_tier_param`; it never lists a pool, sets the buffer or registers a tier vault.
So the settings stay those of the initialisation in every run.
-/
namespace YieldLadder
open Foundation

structure Treasury where
  governance : Governance.State
  vault : StrategyVault.World

namespace Treasury

inductive Action
  | governance (call : Governance.Call)
  | vault (call : StrategyVault.Call)
  | token (asset src dst : Address) (amount : ℤ)

/-- A call from outside, and what the contracts beyond these two answer to governance during it.
What such a contract does in its turn is a call of its own. -/
structure Invocation where
  env : Env
  external : Governance.Message → Except Fault Unit
  action : Action

variable (rule : TokenRule) (governance vault : Address)

/-- A message of governance, delivered. Neither contract exports `set_tier_param`, and governance
does not export `set_allocation`. -/
def deliver (env : Env) (external : Governance.Message → Except Fault Unit)
    (w : StrategyVault.World) : Governance.Message → Except Fault StrategyVault.World
  | .setAllocation callee pool targetBps => do
    if callee = vault then StrategyVault.setAllocation (env.calledBy governance) w pool targetBps
    else do
      failIf (callee = governance) .missingFunction
      external (.setAllocation callee pool targetBps)
      pure w
  | .setTierParam callee param value => do
    failIf (callee = vault ∨ callee = governance) .missingFunction
    external (.setTierParam callee param value)
    pure w

def answer (env : Env) (external : Governance.Message → Except Fault Unit) (w : StrategyVault.World)
    (m : Governance.Message) : Except Fault Unit := do
  let _ ← deliver governance vault env external w m
  pure ()

def exec (t : Treasury) (c : Invocation) :
    Except Fault (Treasury × (Governance.Reply ⊕ StrategyVault.Value)) :=
  match c.action with
  | .governance call => do
    let external := answer governance vault c.env c.external t.vault
    let (g, reply) ← Governance.exec t.governance ⟨c.env, external, call⟩
    let w ← reply.sent.foldlM (deliver governance vault c.env c.external) t.vault
    pure (⟨g, w⟩, .inl reply)
  | .vault call => do
    let (w, value) ← StrategyVault.perform rule vault t.vault (c.env, call)
    pure ({ t with vault := w }, .inr value)
  | .token asset src dst amount => do
    let tokens ← Tokens.transfer rule c.env t.vault.tokens asset src dst amount
    pure ({ t with vault.tokens := tokens }, .inr .unit)

def initial (admin usdc : Address) : StrategyVault.Instance :=
  ⟨admin, usdc, none, .empty, .empty, .empty, StrategyVault.DEFAULT_BUFFER_BPS⟩

def allocationOf (t : Treasury) (pool : Address) (bps : ℤ) : Prop :=
  (pool, bps) ∈ StrategyVault.allocations t.vault

def DepositPasses (t : Treasury) (caller : Address) : Prop :=
  ∃ env amount w, StrategyVault.depositCapital rule vault env t.vault caller amount = .ok w

variable {rule governance vault}
variable {env : Env} {external : Governance.Message → Except Fault Unit} {w w' : StrategyVault.World}
variable {t : Treasury} {c : Invocation} {r : Treasury × (Governance.Reply ⊕ StrategyVault.Value)}
variable {usdc : Address} {g : ℕ}

/-- No message goes through that changes the vault: its allowlist is empty. -/
theorem deliver_initial {m : Governance.Message} (hi : w.inst = some (initial governance usdc))
    (h : deliver governance vault env external w m = .ok w') : w' = w := by
  cases m with
  | setAllocation callee pool targetBps =>
    simp only [deliver] at h
    split at h
    · obtain ⟨i, _, hj, _, hlisted, _⟩ := StrategyVault.setAllocation_ok_iff.mp h
      obtain rfl : initial governance usdc = i := Option.some.inj (hi.symm.trans hj)
      simp [initial] at hlisted
    · simp only [bind_eq_ok, pure_eq_ok] at h
      obtain ⟨_, _, _, _, rfl⟩ := h
      rfl
  | setTierParam callee param value =>
    simp only [deliver, bind_eq_ok, pure_eq_ok] at h
    obtain ⟨_, _, _, _, rfl⟩ := h
    rfl

theorem delivers_initial {l : List Governance.Message} (hi : w.inst = some (initial governance usdc))
    (h : l.foldlM (deliver governance vault env external) w = .ok w') : w' = w := by
  induction l with
  | nil => exact (pure_eq_ok.mp h).symm
  | cons m l ih =>
    rw [List.foldlM_cons, bind_eq_ok] at h
    obtain ⟨mid, hm, h⟩ := h
    obtain rfl := deliver_initial hi hm
    exact ih h

theorem exec_initial (hi : t.vault.inst = some (initial (.contract g) usdc))
    (hc : c.env.caller ≠ some (.contract g)) (h : exec rule (.contract g) vault t c = .ok r) :
    r.1.vault.inst = some (initial (.contract g) usdc) := by
  obtain ⟨env, external, action⟩ := c
  cases action with
  | governance call =>
    simp only [exec, bind_eq_ok, pure_eq_ok] at h
    obtain ⟨_, _, w, hw, rfl⟩ := h
    obtain rfl := delivers_initial hi hw
    exact hi
  | vault call =>
    simp only [exec, bind_eq_ok, pure_eq_ok] at h
    obtain ⟨q, hq, rfl⟩ := h
    have hsettles : StrategyVault.Settles env t.vault call q.1.inst := StrategyVault.step_settles hq
    dsimp only
    generalize q.1.inst = o at hsettles
    cases hsettles with
    | keep => exact hi
    | setup _ _ hnone => cases hi.symm.trans hnone
    | govern i _ _ hj hauth =>
      obtain rfl : initial (.contract g) usdc = i := Option.some.inj (hi.symm.trans hj)
      exact absurd (Env.authorized_contract.mp hauth) hc
  | token asset src dst amount =>
    simp only [exec, bind_eq_ok, pure_eq_ok] at h
    obtain ⟨_, _, rfl⟩ := h
    exact hi

theorem run_initial (hi : t.vault.inst = some (initial (.contract g) usdc)) {cs : List Invocation}
    (hcs : ∀ c ∈ cs, c.env.caller ≠ some (.contract g)) :
    (run (exec rule (.contract g) vault) t cs).vault.inst = some (initial (.contract g) usdc) := by
  have hall : Meets (exec rule (.contract g) vault) (fun _ c => c.env.caller ≠ some (.contract g)) t cs :=
    meets_of_forall hcs
  exact run_invariant_of_meets (I := fun t => t.vault.inst = some (initial (.contract g) usdc))
    (fun _ _ _ hc ht h => exec_initial ht hc h) hi hall

theorem not_depositPasses (hi : t.vault.inst = some (initial governance usdc)) (caller : Address) :
    ¬DepositPasses rule vault t caller := by
  rintro ⟨env, amount, w, h⟩
  simp only [StrategyVault.depositCapital, StrategyVault.unwrap, bind_eq_ok, expect_eq_ok,
    failIf_eq_ok] at h
  obtain ⟨_, _, i, hj, _, hregistered, _⟩ := h
  obtain rfl : initial governance usdc = i := Option.some.inj (hi.symm.trans hj)
  simp [initial] at hregistered

/-- From a vault initialised with the governance contract as its admin: no run gives a pool an
allocation, a run ends with buffer `b` exactly when `b` is the default, and no run lets a
`deposit_capital` pass. -/
theorem settings_reachable_iff (hi : t.vault.inst = some (initial (.contract g) usdc)) :
    (∀ pool bps, ¬∃ cs : List Invocation, (∀ c ∈ cs, c.env.caller ≠ some (.contract g)) ∧
      allocationOf (run (exec rule (.contract g) vault) t cs) pool bps) ∧
    (∀ b, (∃ cs : List Invocation, (∀ c ∈ cs, c.env.caller ≠ some (.contract g)) ∧
      StrategyVault.bufferBps (run (exec rule (.contract g) vault) t cs).vault = b) ↔
        b = StrategyVault.DEFAULT_BUFFER_BPS) ∧
    ∀ caller, ¬∃ cs : List Invocation, (∀ c ∈ cs, c.env.caller ≠ some (.contract g)) ∧
      DepositPasses rule vault (run (exec rule (.contract g) vault) t cs) caller := by
  refine ⟨?_, ?_, ?_⟩
  · rintro pool bps ⟨cs, hcs, hmem⟩
    simp [allocationOf, StrategyVault.allocations, run_initial hi hcs, initial, Dict.empty] at hmem
  · intro b
    constructor
    · rintro ⟨cs, hcs, rfl⟩
      simp [StrategyVault.bufferBps, run_initial hi hcs, initial]
    · rintro rfl
      exact ⟨[], by simp, by simp [StrategyVault.bufferBps, hi, initial]⟩
  · rintro caller ⟨cs, hcs, hpasses⟩
    exact not_depositPasses (run_initial hi hcs) caller hpasses

/-- Contract 8 is governance, with strategist 1 and guardian 2, and contract 7 its strategy vault. -/
def chartered : Treasury where
  governance := ⟨some ⟨.account 1, .account 2, .contract 7, 0⟩, .empty⟩
  vault := ⟨some (initial (.contract 8) (.contract 5)), fun _ _ => 0⟩

theorem settings_reachable_iff_chartered :
    (∀ pool bps, ¬∃ cs : List Invocation, (∀ c ∈ cs, c.env.caller ≠ some (.contract 8)) ∧
      allocationOf (run (exec .host (.contract 8) (.contract 7)) chartered cs) pool bps) ∧
    (∀ b, (∃ cs : List Invocation, (∀ c ∈ cs, c.env.caller ≠ some (.contract 8)) ∧
      StrategyVault.bufferBps (run (exec .host (.contract 8) (.contract 7)) chartered cs).vault = b) ↔
        b = StrategyVault.DEFAULT_BUFFER_BPS) ∧
    ∀ caller, ¬∃ cs : List Invocation, (∀ c ∈ cs, c.env.caller ≠ some (.contract 8)) ∧
      DepositPasses .host (.contract 7) (run (exec .host (.contract 8) (.contract 7)) chartered cs)
        caller :=
  settings_reachable_iff rfl

/-- From the charter no run allocates 10 % to a pool, moves the buffer to 10 % or lets VaultFlex
deposit capital. -/
theorem chartered_stuck :
    (¬∃ cs : List Invocation, (∀ c ∈ cs, c.env.caller ≠ some (.contract 8)) ∧
      allocationOf (run (exec .host (.contract 8) (.contract 7)) chartered cs) (.contract 6) 1_000) ∧
    (¬∃ cs : List Invocation, (∀ c ∈ cs, c.env.caller ≠ some (.contract 8)) ∧
      StrategyVault.bufferBps (run (exec .host (.contract 8) (.contract 7)) chartered cs).vault =
        1_000) ∧
    ¬∃ cs : List Invocation, (∀ c ∈ cs, c.env.caller ≠ some (.contract 8)) ∧
      DepositPasses .host (.contract 7) (run (exec .host (.contract 8) (.contract 7)) chartered cs)
        (.contract 1) := by
  have hrun : ∀ cs : List Invocation, (∀ c ∈ cs, c.env.caller ≠ some (.contract 8)) →
      (run (exec .host (.contract 8) (.contract 7)) chartered cs).vault.inst =
        some (initial (.contract 8) (.contract 5)) := fun _ => run_initial rfl
  refine ⟨?_, ?_, ?_⟩
  · rintro ⟨cs, hcs, hmem⟩
    rw [allocationOf, StrategyVault.allocations, hrun cs hcs] at hmem
    cases hmem
  · rintro ⟨cs, hcs, hbuffer⟩
    rw [StrategyVault.bufferBps, hrun cs hcs] at hbuffer
    cases hbuffer
  · rintro ⟨cs, hcs, hpasses⟩
    exact not_depositPasses (hrun cs hcs) _ hpasses

end Treasury
end YieldLadder
