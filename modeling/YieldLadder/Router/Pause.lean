import YieldLadder.Router.Calls
import YieldLadder.Router.Deployment
import YieldLadder.Vault.Positions

/-! # What a paused router still lets through

While the router is paused, deposits and both exits are refused whatever their
arguments are. `relock` does not ask: it goes through whenever the lock of the
position has matured, and that is the only call from outside that moves a position
during a pause.
-/
namespace YieldLadder
open Foundation

/-- The entry points made for users. -/
inductive VaultRouter.Call.UserFacing : VaultRouter.Call → Prop
  | deposit (user : Address) (tier : Tier) (asset : Address) (amount : ℤ) :
      UserFacing (.deposit user tier asset amount)
  | withdraw (user : Address) (tier : Tier) (asset : Address) (amount : ℤ) :
      UserFacing (.withdraw user tier asset amount)
  | earlyExit (user : Address) (tier : Tier) (asset : Address) (amount : ℤ) :
      UserFacing (.earlyExit user tier asset amount)
  | relock (user : Address) (tier : Tier) (asset : Address) : UserFacing (.relock user tier asset)

namespace Deployment

/-- A signed `relock` of a position in a locked tier whose lock has matured. -/
def Renews (D : Deployment) (w : World) : World.Invocation → Prop
  | (env, .router (.relock user tier asset)) => env.Authorized user ∧
    ∃ v p, w.vaults (D.vault tier) = some v ∧ TierVault.Renewable v env user asset p
  | _ => False

/-- Every position and both totals of every vault are the same in the two worlds. -/
def SamePositions (D : Deployment) (w w' : World) : Prop :=
  ∀ t v, w.vaults (D.vault t) = some v →
    ∃ v', w'.vaults (D.vault t) = some v' ∧ TierVault.SamePositions v v'

variable {D : Deployment} {rule : TokenRule} {w w' w'' : World} {env : Env} {tier : Tier}
variable {user asset : Address} {c : World.Invocation} {r : World × Reply}

theorem SamePositions.of_vaults (h : w'.vaults = w.vaults) : D.SamePositions w w' :=
  fun _ v hv => ⟨v, by rw [h, hv], .refl v⟩

theorem SamePositions.trans (h : D.SamePositions w w') (h' : D.SamePositions w' w'') :
    D.SamePositions w w'' := by
  intro t v hv
  obtain ⟨v', hv', hsame⟩ := h t v hv
  obtain ⟨v'', hv'', hsame'⟩ := h' t v' hv'
  exact ⟨v'', hv'', hsame.trans hsame'⟩

theorem Wired.adminAuthorized_calledBy (hw : D.Wired w) {a : Address} {v : TierVault}
    (hv : w.vaults a = some v) : v.AdminAuthorized (env.calledBy D.router) :=
  ⟨D.router, hw.admin a v hv, Env.authorized_calledBy env D.router⟩

theorem relock_ok_iff (hw : D.Wired w) :
    (∃ r, World.exec rule D.router w (env, .router (.relock user tier asset)) = .ok r) ↔
      D.Renews w (env, .router (.relock user tier asset)) := by
  simp only [World.exec, VaultRouter.step, VaultRouter.relock, bind_eq_ok, Env.requireAuth_eq_ok,
    failIf_eq_ok, pure_eq_ok, Value.asU32_eq_ok, World.invoke, expect_eq_ok]
  constructor
  · rintro ⟨_, _, huser, _, _, a, ha, q, ⟨v, hv, x, hx, _⟩, _⟩
    obtain rfl := hw.vaultAddr_ok ha
    obtain ⟨p, hrenew⟩ := TierVault.renewable_of_step (hw.adminAuthorized_calledBy hv) hx
    exact ⟨huser, v, p, hv, hrenew.params, hrenew.matured, hrenew.fits⟩
  · rintro ⟨huser, v, p, hv, hrenew⟩
    have hauth : v.AdminAuthorized (env.calledBy D.router) := hw.adminAuthorized_calledBy hv
    have hnested : TierVault.Renewable v (env.calledBy D.router) user asset p :=
      ⟨hrenew.params, hrenew.matured, hrenew.fits⟩
    obtain ⟨v', n, hstep⟩ := hnested.step hauth
    have htier : tier ≠ .flex := by
      rintro rfl
      obtain ⟨t, hat, ht⟩ := hw.only _ _ hv
      obtain rfl := vault_inj.mp hat
      have hp := hrenew.params
      cases v <;> simp_all [TierVault.tier, TierVault.params]
    exact ⟨_, (), huser, (), htier, _, hw.vaultAddr tier, _, ⟨v, hv, _, hstep, rfl⟩, n, rfl, rfl⟩

/-- A paused router refuses every user-facing call, except a `relock` that renews. -/
theorem refused_iff (hw : D.Wired w) (hp : VaultRouter.isPaused w.router = true)
    {call : VaultRouter.Call} (hc : call.UserFacing) :
    (∃ e, World.exec rule D.router w (env, .router call) = .error e) ↔
      ¬D.Renews w (env, .router call) := by
  have hnot : ∀ x : Except Fault (World × Reply), (∃ e, x = .error e) ↔ ¬∃ r, x = .ok r := by
    intro x
    cases x <;> simp
  have hgated : ∀ {t v}, call.forwarded = some (t, v) → call.Gated →
      ¬∃ r, World.exec rule D.router w (env, .router call) = .ok r := by
    rintro t v hforward hgate ⟨r, hr⟩
    obtain ⟨_, _, hrun⟩ := VaultRouter.step_forwarded hforward hr
    simp [hrun hgate] at hp
  rw [hnot]
  cases hc with
  | deposit => exact ⟨fun _ => id, fun _ => hgated rfl trivial⟩
  | withdraw => exact ⟨fun _ => id, fun _ => hgated rfl trivial⟩
  | earlyExit => exact ⟨fun _ => id, fun _ => hgated rfl trivial⟩
  | relock => exact not_congr (relock_ok_iff hw)

theorem exec_paused (hw : D.Wired w) (hc : D.Admits c) (hp : VaultRouter.isPaused w.router = true)
    (hno : ¬D.Renews w c) (h : World.exec rule D.router w c = .ok r) : D.SamePositions w r.1 := by
  intro t v hv
  rcases World.exec_reached h (D.vault t) with ⟨hnone, _⟩ | ⟨x, v', hx, hv', hreach⟩
  · cases hnone.symm.trans hv
  obtain rfl : x = v := Option.some.inj (hx.symm.trans hv)
  refine ⟨v', hv', ?_⟩
  obtain ⟨env, action⟩ := c
  cases hreach with
  | idle heq =>
    subst heq
    exact .refl v'
  | direct call reply hcall hstep =>
    have hop : TierVault.IsOperation call := fun args heq => hc.operation _ args (heq ▸ hcall)
    have hauth : ¬x.AdminAuthorized env := by
      rintro ⟨A, hA, hauth⟩
      obtain rfl : D.router = A := Option.some.inj ((hw.admin _ x hx).symm.trans hA)
      exact (outsider_of_authorized hc.caller hauth).1 rfl
    exact TierVault.step_positions_unauthorised hop hauth hstep
  | routed routed tier call reply hcall hforward hstep =>
    dsimp only at hcall
    subst hcall
    obtain ⟨_, _, hrun⟩ := VaultRouter.step_forwarded hforward h
    have hgate : ¬routed.Gated := fun hgate => by simp [hrun hgate] at hp
    rcases TierVault.step_positions (VaultRouter.forwarded_operation hforward) hstep with
      hsame | ⟨hmoves, _⟩
    · exact hsame
    · -- of the calls that move a position only `relock` is not gated
      cases routed with
      | deposit => exact absurd trivial hgate
      | withdraw => exact absurd trivial hgate
      | earlyExit => exact absurd trivial hgate
      | relock => exact absurd ((relock_ok_iff hw).mp ⟨r, h⟩) hno
      | setMaxTvl =>
        cases hforward
        exact hmoves.elim
      | _ => cases hforward

def Halting (D : Deployment) (w : World) (c : World.Invocation) : Prop :=
  VaultRouter.isPaused w.router = true ∧ ¬D.Renews w c

theorem run_halting (hw : D.Wired w) (hg : D.Guards rule) {cs : List World.Invocation}
    (hcs : ∀ c ∈ cs, D.Admits c) (hm : Meets (World.exec rule D.router) D.Halting w cs) :
    D.SamePositions w (run (World.exec rule D.router) w cs) := by
  have hall : Meets (World.exec rule D.router) (fun w c => D.Admits c ∧ D.Halting w c) w cs :=
    meets_and.mpr ⟨meets_of_forall hcs, hm⟩
  have hI := run_invariant_of_meets (I := fun w' => D.Wired w' ∧ D.SamePositions w w') (by
    rintro w' c r ⟨hc, hp, hno⟩ ⟨hw', hsame⟩ h
    exact ⟨exec_wired hw' hg hc h, hsame.trans (exec_paused hw' hc hp hno h)⟩)
    ⟨hw, .of_vaults rfl⟩ hall
  exact hI.2

/-- In every state that a run from a fresh deployment reaches paused: a user-facing call is refused
with the whole state as it was, unless it renews a lock; and no position moves in any continuation
that stays paused and renews none. -/
theorem run_paused (hf : D.Fresh w) (hg : D.Guards rule) {cs : List World.Invocation}
    (hcs : ∀ c ∈ cs, D.Admits c)
    (hp : VaultRouter.isPaused (run (World.exec rule D.router) w cs).router = true) :
    (∀ env call, call.UserFacing →
      ((∃ e, World.exec rule D.router (run (World.exec rule D.router) w cs) (env, .router call) =
          .error e) ∧
        next (World.exec rule D.router) (run (World.exec rule D.router) w cs) (env, .router call) =
          run (World.exec rule D.router) w cs ↔
        ¬D.Renews (run (World.exec rule D.router) w cs) (env, .router call))) ∧
    ∀ ds : List World.Invocation, (∀ c ∈ ds, D.Admits c) →
      Meets (World.exec rule D.router) D.Halting (run (World.exec rule D.router) w cs) ds →
      D.SamePositions (run (World.exec rule D.router) w cs)
        (run (World.exec rule D.router) (run (World.exec rule D.router) w cs) ds) := by
  have hw := run_wired hf.wired hg hcs
  constructor
  · intro env call hc
    have hrefused : (∃ e, World.exec rule D.router (run (World.exec rule D.router) w cs)
        (env, .router call) = .error e) ↔
        ¬D.Renews (run (World.exec rule D.router) w cs) (env, .router call) := refused_iff hw hp hc
    constructor
    · rintro ⟨he, _⟩
      exact hrefused.mp he
    · intro hno
      obtain ⟨e, he⟩ := hrefused.mpr hno
      exact ⟨⟨e, he⟩, next_error he⟩
  · intro ds hds hm
    exact run_halting hw hg hds hm

def pauseCall (ledger : ℕ) : World.Invocation := (⟨[3], none, ledger⟩, .router .pause)

/-- A deposit of 50 USDC into VaultL3, then the pause. -/
def pausedRun : List World.Invocation :=
  [signed 1 (.deposit (.account 7) .l3 usdc 500_000_000), pauseCall 2]

theorem pausedRun_admits : ∀ c ∈ pausedRun, harness.Admits c := by
  intro c hc
  rcases List.mem_pair.mp hc with rfl | rfl
  · exact admits_signed _ _
  · exact ⟨by simp [pauseCall], by simp [pauseCall]⟩

theorem run_paused_harness :
    (∃ e, World.exec .host harness.router (run (World.exec .host harness.router) harnessWorld pausedRun)
        (signed 3 (.withdraw (.account 7) .l3 usdc 500_000_000)) = .error e) ∧
      next (World.exec .host harness.router)
          (run (World.exec .host harness.router) harnessWorld pausedRun)
          (signed 3 (.withdraw (.account 7) .l3 usdc 500_000_000)) =
        run (World.exec .host harness.router) harnessWorld pausedRun :=
  ((run_paused harness_fresh guards_host pausedRun_admits (by decide)).1 _ _ (.withdraw _ _ _ _)).mpr
    id

/-- Once the lock has matured, at ledger 777 601, a `relock` goes through during the pause and sets
the lock to ledger 1 555 201. -/
theorem paused_renewed :
    harness.Fresh harnessWorld ∧ (∀ c ∈ pausedRun, harness.Admits c) ∧
      VaultRouter.isPaused (run (World.exec .host harness.router) harnessWorld pausedRun).router = true ∧
      (((run (World.exec .host harness.router) harnessWorld
        (pausedRun ++ [signed 777_601 (.relock (.account 7) .l3 usdc)])).vaults
          (harness.vault .l3)).map (·.lockUntil (.account 7, usdc))) = some 1_555_201 :=
  ⟨harness_fresh, pausedRun_admits, by decide, by decide⟩

end Deployment
end YieldLadder
