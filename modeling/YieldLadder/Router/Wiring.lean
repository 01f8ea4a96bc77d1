import YieldLadder.Router.Calls
import YieldLadder.Vault.Privilege

/-! # A locked vault and the router as its admin

`initialise` of a locked vault asks the admin it names for its authorization. The
router is a contract: it authorises the calls it makes itself, and it forwards no
`initialise`. So no run, whoever signs, stores the router as the admin of a locked
vault. VaultFlex asks nobody, and takes any admin.
-/
namespace YieldLadder.World
open Foundation

def Uninitialised (w : World) : Prop := ∀ a v, w.vaults a = some v → ∃ t, v = TierVault.deployed t

/-- No locked vault has `admin` as its admin. -/
def Unwired (admin : Address) (w : World) : Prop :=
  ∀ a v, w.vaults a = some v → v.tier ≠ .flex → v.admin ≠ some admin

/-- Some run of calls, none of them made by the router contract `n` itself, ends with the router as
the admin of the vault of `tier`, and a deposit that only the user signs then goes through. -/
def Wirable (rule : TokenRule) (n : ℕ) (w : World) (tier : Tier) : Prop :=
  ∃ cs : List Invocation, (∀ c ∈ cs, c.1.caller ≠ some (.contract n)) ∧ ∃ a v,
    VaultRouter.vaultAddr (run (exec rule (.contract n)) w cs).router tier = .ok a ∧
    (run (exec rule (.contract n)) w cs).vaults a = some v ∧ v.tier = tier ∧
    v.admin = some (.contract n) ∧ ∃ user asset amount ledger r,
      exec rule (.contract n) (run (exec rule (.contract n)) w cs)
        (⟨[user], none, ledger⟩, .router (.deposit (.account user) tier asset amount)) = .ok r

variable {rule : TokenRule} {n : ℕ} {w : World} {c : Invocation} {r : World × Reply} {tier : Tier}

theorem Uninitialised.unwired (h : Uninitialised w) (admin : Address) : Unwired admin w := by
  intro a v hv _
  obtain ⟨t, rfl⟩ := h a v hv
  cases t <;> simp [TierVault.deployed, TierVault.admin, VaultFlex.State.empty,
    VaultL3.State.empty, Locked.State.empty]

/-- One call leaves the router out: a direct `initialise` lacks its authorization, and no call the
router forwards is one. -/
theorem Unwired.exec (hw : Unwired (.contract n) w) (hc : c.1.caller ≠ some (.contract n))
    (h : World.exec rule (.contract n) w c = .ok r) : Unwired (.contract n) r.1 := by
  have hdirect : ¬c.1.Authorized (.contract n) := by
    rw [Env.authorized_contract]
    exact hc
  intro a v' hv' htier hadmin
  rcases exec_reached h a with ⟨_, hnone⟩ | ⟨v, v₁, hv, hv₁, hreach⟩
  · cases hnone.symm.trans hv'
  obtain rfl : v₁ = v' := Option.some.inj (hv₁.symm.trans hv')
  cases hreach with
  | idle heq =>
    subst heq
    exact hw a v₁ hv htier hadmin
  | direct call reply _ hstep =>
    have ht : v.tier ≠ .flex := TierVault.step_tier hstep ▸ htier
    rcases TierVault.step_admin_source ht hstep hadmin with hold | ⟨_, hauth⟩
    · exact hw a v hv ht hold
    · exact hdirect hauth
  | routed routed tier call reply _ hforward hstep =>
    have ht : v.tier ≠ .flex := TierVault.step_tier hstep ▸ htier
    rcases TierVault.step_admin_source ht hstep hadmin with hold | ⟨⟨args, hargs⟩, _⟩
    · exact hw a v hv ht hold
    · exact VaultRouter.forwarded_operation hforward args hargs

theorem run_unwired (hw : Unwired (.contract n) w) {cs : List Invocation}
    (hcs : ∀ c ∈ cs, c.1.caller ≠ some (.contract n)) :
    Unwired (.contract n) (run (World.exec rule (.contract n)) w cs) := by
  have hm : Meets (World.exec rule (.contract n)) (fun _ c => c.1.caller ≠ some (.contract n)) w cs :=
    meets_of_forall hcs
  exact run_invariant_of_meets (I := Unwired (.contract n)) (fun _ _ _ hc hw h => hw.exec hc h) hw hm

/-- No locked tier can be wired to the router, whatever is called and whoever signs. -/
theorem locked_not_wirable (hw : Uninitialised w) (ht : tier ≠ .flex) : ¬Wirable rule n w tier := by
  rintro ⟨cs, hcs, a, v, _, hv, rfl, hadmin, _⟩
  have hrun : Unwired (.contract n) (run (World.exec rule (.contract n)) w cs) :=
    run_unwired (hw.unwired (.contract n)) hcs
  exact hrun a v hv ht hadmin

/-- The four vaults and the router, contract 0, as the deployment script leaves them before its
first `initialise`. -/
def scripted : World where
  router := .empty
  vaults
    | .contract 1 => some (TierVault.deployed .flex)
    | .contract 2 => some (TierVault.deployed .l3)
    | .contract 3 => some (TierVault.deployed .l6)
    | .contract 4 => some (TierVault.deployed .l12)
    | _ => none
  tokens _ _ := 0

theorem scripted_uninitialised : Uninitialised scripted := by
  intro a v hv
  unfold scripted at hv
  dsimp only at hv
  split at hv <;> cases hv
  · exact ⟨.flex, rfl⟩
  · exact ⟨.l3, rfl⟩
  · exact ⟨.l6, rfl⟩
  · exact ⟨.l12, rfl⟩

theorem locked_not_wirable_scripted : ¬Wirable .host 0 scripted .l6 :=
  locked_not_wirable scripted_uninitialised (by decide)

/-- The script's `initialise` of VaultL3, signed by the deployer, is refused, and nothing else
wires VaultL3 to the router; that of VaultFlex, which asks for no signature, is not. -/
theorem scripted_refused :
    exec .host (.contract 0) scripted (⟨[1], none, 0⟩, .vault (.contract 2) (.initialise
      (.guarded (.contract 0) (.contract 8) (.contract 9) (.contract 7) (.contract 5) 0))) =
        .error .unauthorized ∧
      ¬Wirable .host 0 scripted .l3 ∧
      ∃ r v, exec .host (.contract 0) scripted (⟨[1], none, 0⟩, .vault (.contract 1) (.initialise
        (.flex (.contract 0) (.contract 7)))) = .ok r ∧
          r.1.vaults (.contract 1) = some v ∧ v.admin = some (.contract 0) := by
  refine ⟨rfl, ?_, _, _, rfl, rfl, rfl⟩
  rintro ⟨cs, hcs, a, v, _, hv, htier, hadmin, _⟩
  have hrun : Unwired (.contract 0) (run (World.exec .host (.contract 0)) scripted cs) :=
    run_unwired (scripted_uninitialised.unwired (.contract 0)) hcs
  exact hrun a v hv (by rw [htier]; decide) hadmin

end YieldLadder.World
