import YieldLadder.Foundation.Machine
import YieldLadder.Router.VaultRouter
import YieldLadder.Vault.Accounting

/-! # What the router's calls reach

Every state-changing entry point of the router forwards at most one call to a
tier vault, none of them an `initialise`, and the circuit breaker changes at the
guardian's authorization alone. Nothing is assumed of the wiring: the vaults may
be set up, replaced or missing.
-/
namespace YieldLadder
open Foundation

namespace VaultRouter

/-- The vault call an entry point forwards, and the tier it goes to. -/
def Call.forwarded : Call → Option (Tier × VaultCall)
  | .deposit user tier asset amount => some (tier, .deposit user asset amount)
  | .withdraw user tier asset amount => some (tier, .withdraw user asset amount)
  | .earlyExit user tier asset amount => some (tier, .earlyExit user asset amount)
  | .setMaxTvl tier newCap => some (tier, .setMaxTvl newCap)
  | .relock user tier asset => some (tier, .relock user asset)
  | _ => none

/-- The vault of `tier` answered the call `c` made by the router. -/
def Forwarded (self : Address) (env : Env) (w w' : World) (tier : Tier) (c : VaultCall) : Prop :=
  ∃ a v q, vaultAddr w.router tier = .ok a ∧ w.vaults a = some v ∧
    v.step (env.calledBy self) c = .ok q ∧ w'.vaults = Function.update w.vaults a (some q.1)

variable {rule : TokenRule} {self : Address} {env : Env} {w : World} {call : Call}
variable {r : World × Reply} {tier : Tier} {c : VaultCall}

theorem forwarded_operation (h : call.forwarded = some (tier, c)) : TierVault.IsOperation c := by
  intro args heq
  subst heq
  cases call <;> simp [Call.forwarded] at h

theorem invoke_forwarded {w₁ : World} {a : Address} {q : World × Reply}
    (ha : vaultAddr w.router tier = .ok a) (hv : w₁.vaults = w.vaults)
    (h : World.invoke (env.calledBy self) w₁ a c = .ok q) :
    Forwarded self env w q.1 tier c ∧ q.1.router = w₁.router := by
  simp only [World.invoke, bind_eq_ok, expect_eq_ok, pure_eq_ok] at h
  obtain ⟨v, hfound, x, hx, rfl⟩ := h
  rw [hv] at hfound
  have hnew : Function.update w₁.vaults a (some x.1) = Function.update w.vaults a (some x.1) := by
    rw [hv]
  exact ⟨⟨a, v, x, ha, hfound, hx, hnew⟩, rfl⟩

theorem payOut_forwarded {user asset : Address}
    (h : payOut rule self env w user tier asset c = .ok r) :
    isPaused w.router = false ∧ Forwarded self env w r.1 tier c ∧ r.1.router = w.router := by
  simp only [payOut, requireNotPaused, bind_eq_ok, failIf_eq_ok, pure_eq_ok, Bool.not_eq_true] at h
  obtain ⟨_, hrun, _, _, a, ha, q, hq, _, _, tokens, _, rfl⟩ := h
  obtain ⟨hforward, hrouter⟩ := invoke_forwarded ha rfl hq
  exact ⟨hrun, hforward, hrouter⟩

/-- The entry points that move a position ask the circuit breaker first, `relock` apart. -/
def Call.Gated : Call → Prop
  | .deposit _ _ _ _ => True
  | .withdraw _ _ _ _ => True
  | .earlyExit _ _ _ _ => True
  | _ => False

theorem step_forwarded (hc : call.forwarded = some (tier, c)) (h : step rule self env w call = .ok r) :
    Forwarded self env w r.1 tier c ∧ r.1.router = w.router ∧
      (call.Gated → isPaused w.router = false) := by
  cases call with
  | deposit user t asset amount =>
    cases hc
    simp only [step, deposit, requireNotPaused, bind_eq_ok, failIf_eq_ok, Tokens.transfer_eq_ok,
      pure_eq_ok, Bool.not_eq_true] at h
    obtain ⟨_, hrun, _, _, _, _, _, _, a, ha, tokens, _, q, hq, rfl⟩ := h
    have hsame : ({ w with tokens } : World).vaults = w.vaults := rfl
    obtain ⟨hforward, hrouter⟩ := invoke_forwarded ha hsame hq
    exact ⟨hforward, hrouter, fun _ => hrun⟩
  | withdraw user t asset amount =>
    cases hc
    obtain ⟨hrun, hforward, hrouter⟩ := payOut_forwarded h
    exact ⟨hforward, hrouter, fun _ => hrun⟩
  | earlyExit user t asset amount =>
    cases hc
    obtain ⟨hrun, hforward, hrouter⟩ := payOut_forwarded h
    exact ⟨hforward, hrouter, fun _ => hrun⟩
  | setMaxTvl t newCap =>
    cases hc
    simp only [step, setMaxTvl, unwrap, bind_eq_ok, expect_eq_ok, pure_eq_ok] at h
    obtain ⟨i, hi, _, _, q, hq, rfl⟩ := h
    have ha : vaultAddr w.router tier = .ok (i.vault tier) := by simp [vaultAddr, unwrap, hi]
    obtain ⟨hforward, hrouter⟩ := invoke_forwarded ha rfl hq
    exact ⟨hforward, hrouter, fun hgate => hgate.elim⟩
  | relock user t asset =>
    cases hc
    simp only [step, relock, bind_eq_ok, pure_eq_ok] at h
    obtain ⟨_, _, _, _, a, ha, q, hq, _, _, rfl⟩ := h
    obtain ⟨hforward, hrouter⟩ := invoke_forwarded ha rfl hq
    exact ⟨hforward, hrouter, fun hgate => hgate.elim⟩
  | _ => cases hc

/-- What a call does to the instance entries: nothing, the one `initialise`, or the circuit breaker
at the guardian's authorization. -/
inductive Switch (env : Env) (s s' : State) : Prop
  | keep (h : s'.inst = s.inst)
  | setup (h : s.inst = none)
  | breaker (i : Instance) (active : Bool) (h : s.inst = some i) (hauth : env.Authorized i.guardian)
      (h' : s'.inst = some { i with paused := active })

theorem step_local (hc : call.forwarded = none) (h : step rule self env w call = .ok r) :
    r.1.vaults = w.vaults ∧ r.1.tokens = w.tokens ∧ Switch env w.router r.1.router := by
  cases call with
  | initialise admin governance guardian vaults initialAssets =>
    simp only [step, initialise, bind_eq_ok, failIf_eq_ok, pure_eq_ok] at h
    obtain ⟨_, ⟨_, hnone, _, _, rfl⟩, rfl⟩ := h
    exact ⟨rfl, rfl, .setup (by simpa using hnone)⟩
  | pause =>
    simp only [step, pause, bind_eq_ok, expect_eq_ok, Env.requireAuth_eq_ok, pure_eq_ok] at h
    obtain ⟨_, ⟨i, hi, _, hauth, rfl⟩, rfl⟩ := h
    exact ⟨rfl, rfl, .breaker i true hi hauth rfl⟩
  | unpause =>
    simp only [step, unpause, bind_eq_ok, expect_eq_ok, Env.requireAuth_eq_ok, pure_eq_ok] at h
    obtain ⟨_, ⟨i, hi, _, hauth, rfl⟩, rfl⟩ := h
    exact ⟨rfl, rfl, .breaker i false hi hauth rfl⟩
  | isPaused =>
    obtain rfl := pure_eq_ok.mp h
    exact ⟨rfl, rfl, .keep rfl⟩
  | isDepositAssetAllowed asset =>
    obtain rfl := pure_eq_ok.mp h
    exact ⟨rfl, rfl, .keep rfl⟩
  | deposit => cases hc
  | withdraw => cases hc
  | earlyExit => cases hc
  | setMaxTvl => cases hc
  | relock => cases hc
  | _ =>
    -- the registry changes no instance entry, the remaining entry points read
    simp only [step, bind_eq_ok, pure_eq_ok] at h
    obtain ⟨_, _, rfl⟩ := h
    exact ⟨rfl, rfl, .keep rfl⟩

end VaultRouter

namespace World
variable {rule : TokenRule} {self : Address} {w : World} {c : Invocation} {r : World × Reply}

/-- How a call reaches the vault at `a`: not at all, directly, or forwarded by the router. -/
inductive Reached (self : Address) (c : Invocation) (a : Address) (v v' : TierVault) : Prop
  | idle (h : v' = v)
  | direct (call : VaultCall) (reply : Reply) (hc : c.2 = .vault a call)
      (h : v.step c.1 call = .ok (v', reply))
  | routed (routed : VaultRouter.Call) (tier : Tier) (call : VaultCall) (reply : Reply)
      (hc : c.2 = .router routed) (hf : routed.forwarded = some (tier, call))
      (h : v.step (c.1.calledBy self) call = .ok (v', reply))

/-- A successful call creates no vault and removes none, and reaches each in one of these ways. -/
theorem exec_reached (h : exec rule self w c = .ok r) (a : Address) :
    w.vaults a = none ∧ r.1.vaults a = none ∨
      ∃ v v', w.vaults a = some v ∧ r.1.vaults a = some v' ∧ Reached self c a v v' := by
  have hsame : r.1.vaults = w.vaults → w.vaults a = none ∧ r.1.vaults a = none ∨
      ∃ v v', w.vaults a = some v ∧ r.1.vaults a = some v' ∧ Reached self c a v v' := by
    intro hvaults
    rw [hvaults]
    cases hv : w.vaults a with
    | none => exact .inl ⟨rfl, rfl⟩
    | some v => exact .inr ⟨v, v, rfl, rfl, .idle rfl⟩
  have hupdate : ∀ {b : Address} {v : TierVault} {q : TierVault × Reply}, w.vaults b = some v →
      r.1.vaults = Function.update w.vaults b (some q.1) → (b = a → Reached self c a v q.1) →
      w.vaults a = none ∧ r.1.vaults a = none ∨
        ∃ v v', w.vaults a = some v ∧ r.1.vaults a = some v' ∧ Reached self c a v v' := by
    intro b v q hb hvaults hreach
    rw [hvaults]
    by_cases hba : a = b
    · subst hba
      exact .inr ⟨v, q.1, hb, Function.update_self _ _ _, hreach rfl⟩
    · rw [Function.update_of_ne hba]
      cases hv : w.vaults a with
      | none => exact .inl ⟨rfl, rfl⟩
      | some x => exact .inr ⟨x, x, rfl, rfl, .idle rfl⟩
  obtain ⟨env, action⟩ := c
  cases action with
  | router call =>
    cases hc : call.forwarded with
    | none => exact hsame (VaultRouter.step_local hc h).1
    | some x =>
      obtain ⟨tier, vaultCall⟩ := x
      obtain ⟨⟨b, v, q, _, hb, hq, hvaults⟩, _⟩ := VaultRouter.step_forwarded hc h
      exact hupdate hb hvaults fun _ => .routed call tier vaultCall q.2 rfl hc hq
  | vault callee call =>
    simp only [exec, invoke, bind_eq_ok, expect_eq_ok, pure_eq_ok] at h
    obtain ⟨v, hv, q, hq, rfl⟩ := h
    apply hupdate (q := q) hv rfl
    rintro rfl
    exact .direct call q.2 rfl hq
  | transfer asset src dst amount =>
    simp only [exec, bind_eq_ok, pure_eq_ok] at h
    obtain ⟨_, _, rfl⟩ := h
    exact hsame rfl

theorem exec_switch (h : exec rule self w c = .ok r) :
    VaultRouter.Switch c.1 w.router r.1.router := by
  obtain ⟨env, action⟩ := c
  cases action with
  | router call =>
    cases hc : call.forwarded with
    | none =>
      obtain ⟨_, _, hswitch⟩ := VaultRouter.step_local hc h
      exact hswitch
    | some x =>
      obtain ⟨_, hrouter, _⟩ := VaultRouter.step_forwarded hc h
      exact .keep (by rw [hrouter])
  | vault callee call =>
    simp only [exec, invoke, bind_eq_ok, expect_eq_ok, pure_eq_ok] at h
    obtain ⟨v, _, q, _, rfl⟩ := h
    exact .keep rfl
  | transfer asset src dst amount =>
    simp only [exec, bind_eq_ok, pure_eq_ok] at h
    obtain ⟨_, _, rfl⟩ := h
    exact .keep rfl

end World
end YieldLadder
