import YieldLadder.Governance.Multisig
import YieldLadder.Router.Calls
import YieldLadder.Router.Deployment

/-! # The guardian multisig as guardian of the router and of VaultL3

The multisig originates one kind of call, the `veto` of a governance contract.
`pause`, `unpause` and `set_emergency_unlock` ask for the guardian's authorization,
which a contract only gives by making the call itself. In the composition of the
multisig, the governance contracts, the router and the vaults, no run changes the
circuit breaker, and none a flag of VaultL3 while the multisig is its guardian.
-/
namespace YieldLadder
open Foundation

def Governance.Message.callee : Governance.Message → Address
  | .setAllocation callee _ _ => callee
  | .setTierParam callee _ _ => callee

/-- The multisig with its governance contracts, and the router with its vaults. -/
structure Protocol where
  council : Council
  world : World

namespace Protocol

inductive Action
  | council (call : Council.Call)
  | world (action : World.Action)

/-- A call from outside, and what contracts beyond these answer to governance during it. -/
structure Invocation where
  env : Env
  external : Governance.Message → Except Fault Unit
  action : Action

/-- The router, the vaults and the governance contracts export neither `set_allocation` nor
`set_tier_param`; other contracts answer as they do. -/
def answer (router : Address) (p : Protocol) (external : Governance.Message → Except Fault Unit)
    (m : Governance.Message) : Except Fault Unit :=
  if m.callee = router ∨ (p.world.vaults m.callee).isSome = true ∨
      (p.council.governances m.callee).isSome = true then .error .missingFunction
  else external m

def exec (rule : TokenRule) (router multisig : Address) (p : Protocol) (c : Invocation) :
    Except Fault (Protocol × (Council.Value ⊕ Reply)) :=
  match c.action with
  | .council call => do
    let (council, value) ← Council.exec multisig p.council ⟨c.env, answer router p c.external, call⟩
    pure ({ p with council }, .inl value)
  | .world action => do
    let (world, reply) ← World.exec rule router p.world (c.env, action)
    pure ({ p with world }, .inr reply)

def guardianAt (p : Protocol) (a : Address) : Option Address := (p.world.vaults a).bind (·.guardian)

def unlockedAt (p : Protocol) (a asset : Address) : Bool :=
  ((p.world.vaults a).map (·.emergency asset)).getD false

/-- The multisig contract `m` is the guardian of the router and of the vault at `a`. -/
structure Seated (m : ℕ) (a : Address) (p : Protocol) : Prop where
  router : ∃ i, p.world.router.inst = some i ∧ i.guardian = .contract m
  vault : p.guardianAt a = some (.contract m)

variable {rule : TokenRule} {router a asset : Address} {m : ℕ} {p : Protocol} {c : Invocation}
variable {r : Protocol × (Council.Value ⊕ Reply)} {i : VaultRouter.Instance}

theorem exec_world (h : exec rule router (.contract m) p c = .ok r) :
    r.1.world = p.world ∨ ∃ action q, c.action = .world action ∧
      World.exec rule router p.world (c.env, action) = .ok q ∧ r.1.world = q.1 := by
  obtain ⟨env, external, action⟩ := c
  cases action with
  | council call =>
    simp only [exec, bind_eq_ok, pure_eq_ok] at h
    obtain ⟨_, _, rfl⟩ := h
    exact .inl rfl
  | world action =>
    simp only [exec, bind_eq_ok, pure_eq_ok] at h
    obtain ⟨q, hq, rfl⟩ := h
    exact .inr ⟨action, q, rfl, hq, rfl⟩

theorem exec_router (hi : p.world.router.inst = some i) (hm : i.guardian = .contract m)
    (hc : c.env.caller ≠ some (.contract m)) (h : exec rule router (.contract m) p c = .ok r) :
    r.1.world.router.inst = some i := by
  rcases exec_world h with hsame | ⟨action, q, _, hq, hworld⟩
  · rw [hsame]
    exact hi
  rw [hworld]
  cases World.exec_switch hq with
  | keep heq =>
    rw [heq]
    exact hi
  | setup hnone => cases hi.symm.trans hnone
  | breaker j active hj hauth =>
    obtain rfl : i = j := Option.some.inj (hi.symm.trans hj)
    rw [hm, Env.authorized_contract] at hauth
    exact absurd hauth hc

theorem exec_unlocked (hm : p.guardianAt a = some (.contract m))
    (hc : c.env.caller ≠ some (.contract m)) (h : exec rule router (.contract m) p c = .ok r) :
    r.1.unlockedAt a asset = p.unlockedAt a asset := by
  rcases exec_world h with hsame | ⟨action, q, _, hq, hworld⟩
  · simp [unlockedAt, hsame]
  obtain ⟨v, hv, hguardian⟩ := Option.bind_eq_some_iff.mp hm
  rcases World.exec_reached hq a with ⟨hnone, _⟩ | ⟨x, v', hx, hv', hreach⟩
  · cases hnone.symm.trans hv
  obtain rfl : x = v := Option.some.inj (hx.symm.trans hv)
  have hflags : v'.emergency = x.emergency := by
    cases hreach with
    | idle heq => rw [heq]
    | direct call reply _ hstep =>
      rcases TierVault.step_emergency hstep with hkeep | ⟨_, u, hu, hauth⟩
      · exact hkeep
      · obtain rfl : u = .contract m := Option.some.inj (hu.symm.trans hguardian)
        exact absurd (Env.authorized_contract.mp hauth) hc
    | routed routed tier call reply _ hforward hstep =>
      rcases TierVault.step_emergency hstep with hkeep | ⟨⟨_, _, rfl⟩, _⟩
      · exact hkeep
      · -- the router forwards no `set_emergency_unlock`
        cases routed <;> simp [VaultRouter.Call.forwarded] at hforward
  simp [unlockedAt, hworld, hx, hv', hflags]

def Stays (m : ℕ) (a : Address) (p : Protocol) (_ : Invocation) : Prop :=
  p.guardianAt a = some (.contract m)

theorem run_router (hi : p.world.router.inst = some i) (hm : i.guardian = .contract m)
    {cs : List Invocation} (hcs : ∀ c ∈ cs, c.env.caller ≠ some (.contract m)) :
    (run (exec rule router (.contract m)) p cs).world.router.inst = some i := by
  have hall : Meets (exec rule router (.contract m)) (fun _ c => c.env.caller ≠ some (.contract m)) p cs :=
    meets_of_forall hcs
  exact run_invariant_of_meets (I := fun p => p.world.router.inst = some i)
    (fun _ _ _ hc hp h => exec_router hp hm hc h) hi hall

theorem run_unlocked {cs : List Invocation} (hcs : ∀ c ∈ cs, c.env.caller ≠ some (.contract m))
    (hstays : Meets (exec rule router (.contract m)) (Stays m a) p cs) :
    (run (exec rule router (.contract m)) p cs).unlockedAt a asset = p.unlockedAt a asset := by
  have hall : Meets (exec rule router (.contract m))
      (fun p c => c.env.caller ≠ some (.contract m) ∧ Stays m a p c) p cs :=
    meets_and.mpr ⟨meets_of_forall hcs, hstays⟩
  exact run_invariant_of_meets (I := fun q => q.unlockedAt a asset = p.unlockedAt a asset)
    (fun _ _ _ hc hq h => (exec_unlocked hc.2 hc.1 h).trans hq) rfl hall

/-- Whatever is called and whoever signs, once the multisig is the guardian of the router and of the
vault at `a`: it stays the router's guardian, `Paused` never changes, and no emergency flag of the
vault changes while it is the vault's guardian. -/
theorem guardian_never_acts (h : Seated m a p) {cs : List Invocation}
    (hcs : ∀ c ∈ cs, c.env.caller ≠ some (.contract m)) :
    (∃ i, (run (exec rule router (.contract m)) p cs).world.router.inst = some i ∧
      i.guardian = .contract m) ∧
    VaultRouter.isPaused (run (exec rule router (.contract m)) p cs).world.router =
      VaultRouter.isPaused p.world.router ∧
    (Meets (exec rule router (.contract m)) (Stays m a) p cs → ∀ asset,
      (run (exec rule router (.contract m)) p cs).unlockedAt a asset = p.unlockedAt a asset) := by
  obtain ⟨i, hi, hm⟩ := h.router
  have hrun : (run (exec rule router (.contract m)) p cs).world.router.inst = some i :=
    run_router hi hm hcs
  refine ⟨⟨i, hrun, hm⟩, ?_, fun hstays asset => run_unlocked hcs hstays⟩
  simp [VaultRouter.isPaused, hrun, hi]

/-- The deployment script's wiring: the multisig, contract 9 with account 1 as its only owner, is the
guardian of the governance contract 8, of the router, contract 0, and of VaultL3, contract 2. -/
def wired : Protocol where
  council :=
    ⟨⟨some ⟨[.account 1], 1⟩, .empty⟩, Function.update (fun _ => none) (.contract 8)
      (some ⟨some ⟨.account 1, .contract 9, .contract 7, 0⟩, .empty⟩)⟩
  world :=
    { Deployment.harnessWorld with
      router.inst := some ⟨.account 1, .contract 8, .contract 9, .contract 1, .contract 2, .contract 3,
        .contract 4, false⟩
      vaults := Function.update Deployment.harnessWorld.vaults (.contract 2)
        (some (.l3 { VaultL3.State.empty with
          core.inst := some (Locked.freshInstance (.contract 0) (.contract 8) (.contract 7) (.contract 5) 0)
          guardian := some (.contract 9) })) }

theorem wired_seated : Seated 9 (.contract 2) wired where
  router := ⟨_, rfl, rfl⟩
  vault := rfl

/-- The owner asks the router to pause and VaultL3 to unlock USDC. -/
def pleas : List Invocation :=
  [⟨⟨[1], none, 1⟩, fun _ => .ok (), .world (.router .pause)⟩,
   ⟨⟨[1], none, 2⟩, fun _ => .ok (), .world (.vault (.contract 2) (.setEmergencyUnlock (.contract 5) true))⟩]

theorem guardian_never_acts_pleas :
    (∃ i, (run (exec .host (.contract 0) (.contract 9)) wired pleas).world.router.inst = some i ∧
      i.guardian = .contract 9) ∧
    VaultRouter.isPaused (run (exec .host (.contract 0) (.contract 9)) wired pleas).world.router =
      VaultRouter.isPaused wired.world.router ∧
    (Meets (exec .host (.contract 0) (.contract 9)) (Stays 9 (.contract 2)) wired pleas → ∀ asset,
      (run (exec .host (.contract 0) (.contract 9)) wired pleas).unlockedAt (.contract 2) asset =
        wired.unlockedAt (.contract 2) asset) :=
  guardian_never_acts wired_seated (by simp [pleas])

/-- From the script's wiring no run pauses the router, and none unlocks an asset of VaultL3 with the
multisig as its guardian, though the only owner may sign anything. -/
theorem wired_never_paused :
    Seated 9 (.contract 2) wired ∧
    (¬∃ cs : List Invocation, (∀ c ∈ cs, c.env.caller ≠ some (.contract 9)) ∧
      VaultRouter.isPaused (run (exec .host (.contract 0) (.contract 9)) wired cs).world.router = true) ∧
    ¬∃ (asset : Address) (cs : List Invocation), (∀ c ∈ cs, c.env.caller ≠ some (.contract 9)) ∧
      Meets (exec .host (.contract 0) (.contract 9)) (Stays 9 (.contract 2)) wired cs ∧
      (run (exec .host (.contract 0) (.contract 9)) wired cs).unlockedAt (.contract 2) asset = true := by
  refine ⟨wired_seated, ?_, ?_⟩
  · rintro ⟨cs, hcs, hpaused⟩
    have hrun : (run (exec .host (.contract 0) (.contract 9)) wired cs).world.router.inst =
        wired.world.router.inst := run_router rfl rfl hcs
    rw [VaultRouter.isPaused, hrun] at hpaused
    cases hpaused
  · rintro ⟨asset, cs, hcs, hstays, hunlocked⟩
    rw [run_unlocked hcs hstays] at hunlocked
    cases hunlocked

end Protocol
end YieldLadder
