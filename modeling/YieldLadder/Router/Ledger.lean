import YieldLadder.Router.Solvency

/-! # A position as the sum of the calls on it

The router's deposits and exits move a position by their amounts, and nothing else does:
no direct call of a vault, no transfer, no call on another position, tier or asset. So the
successful calls of a run add up to the position, and an exit of all that a position held
cannot go through a second time before a deposit does.
-/
namespace YieldLadder.Deployment
open Foundation

/-- What a successful call adds to the position of `user` in the vault of tier `t`. -/
def flow (t : Tier) (user asset : Address) : World.Action → ℤ
  | .router call =>
    match call.forwarded with
    | some (tier, vaultCall) => if t = tier then TierVault.credited vaultCall (user, asset) else 0
    | none => 0
  | _ => 0

/-- What the successful calls of a run add to a position: the deposits less the exits. -/
def net (rule : TokenRule) (D : Deployment) (w : World) (cs : List World.Invocation) (t : Tier)
    (user asset : Address) : ℤ :=
  ((log (World.exec rule D.router) w cs).map fun e => flow t user asset e.1.2).sum

def exits (t : Tier) (user asset : Address) (amount : ℤ) : World.Action → Bool
  | .router (.withdraw u tier a x) => u = user ∧ tier = t ∧ a = asset ∧ x = amount
  | .router (.earlyExit u tier a x) => u = user ∧ tier = t ∧ a = asset ∧ x = amount
  | _ => false

variable {D : Deployment} {rule : TokenRule} {w : World} {c : World.Invocation} {r : World × Reply}
variable {t : Tier} {user asset : Address} {amount : ℤ} {cs : List World.Invocation}

theorem ran_of_forwarded {env : Env} {w' : World} {tier : Tier} {call : VaultCall} (hw : D.Wired w)
    (hop : TierVault.IsOperation call) (h : VaultRouter.Forwarded D.router env w w' tier call) :
    ∃ v v' reply, Ran D (env.calledBy D.router) w w' tier call v v' reply := by
  obtain ⟨a, v, q, ha, hv, hs, hvaults⟩ := h
  obtain rfl : a = D.vault tier := hw.vaultAddr_ok ha
  exact ⟨v, q.1, q.2, hop, hv, TierVault.step_outcome hop hs, hs, hvaults⟩

theorem exec_balanceAt (hw : D.Wired w) (hc : D.Admits c) (h : World.exec rule D.router w c = .ok r)
    (t : Tier) (user asset : Address) :
    r.1.balanceAt (D.vault t) user asset = w.balanceAt (D.vault t) user asset + flow t user asset c.2 := by
  obtain ⟨env, action⟩ := c
  cases action with
  | router call =>
    cases hforward : call.forwarded with
    | none =>
      have hvaults : r.1.vaults = w.vaults := (VaultRouter.step_local hforward h).1
      rw [balanceAt_of_vaults hvaults]
      simp only [flow, hforward, add_zero]
    | some forwarded =>
      obtain ⟨tier, vaultCall⟩ := forwarded
      obtain ⟨v, v', reply, hran⟩ := ran_of_forwarded hw (VaultRouter.forwarded_operation hforward)
        (VaultRouter.step_forwarded hforward h).1
      rw [hran.balanceAt t user asset]
      simp only [flow, hforward]
  | vault callee call =>
    have hop : TierVault.IsOperation call := fun args heq => hc.operation callee args (heq ▸ rfl)
    obtain ⟨tier, rfl⟩ : ∃ tier, callee = D.vault tier := by
      simp only [World.exec, World.invoke, bind_eq_ok, expect_eq_ok] at h
      obtain ⟨v, hv, _⟩ := h
      obtain ⟨tier, hcallee, _⟩ := hw.only callee v hv
      exact ⟨tier, hcallee⟩
    obtain ⟨v, v', hran, _⟩ := invoke_ran hop h
    have hbook : v'.book = v.book := direct_book hc.caller (hw.admin _ _ hran.found) hran.outcome
    have hbalances : v'.balances = v.balances := congrArg Book.principal hbook
    simp only [flow, add_zero, World.balanceAt, hran.vaults]
    by_cases ht : t = tier
    · subst ht
      rw [Function.update_self, hran.found]
      simp only [Option.map_some, Option.getD_some, TierVault.balance, hbalances]
    · rw [Function.update_of_ne (vault_inj.not.mpr ht)]
  | transfer a src dst x =>
    simp only [World.exec, bind_eq_ok, pure_eq_ok] at h
    obtain ⟨tokens, _, rfl⟩ := h
    simp only [flow, add_zero]
    rfl

/-- A position after a run is what it was and the flows of the calls that went through. -/
theorem run_balanceAt (hw : D.Wired w) (hg : D.Guards rule) (hcs : ∀ c ∈ cs, D.Admits c) (t : Tier)
    (user asset : Address) :
    (run (World.exec rule D.router) w cs).balanceAt (D.vault t) user asset =
      w.balanceAt (D.vault t) user asset + net rule D w cs t user asset := by
  have hm : Meets (World.exec rule D.router) (fun _ c => D.Admits c) w cs := meets_of_forall hcs
  rw [net, log_sum (g := fun _ c => flow t user asset c.2) (fun _ _ _ _ _ => rfl) hm]
  refine run_tally (m := fun w => w.balanceAt (D.vault t) user asset) (I := D.Wired) ?_ hw hm
  intro s c r hc hs h
  exact ⟨exec_wired hs hg hc h, exec_balanceAt hs hc h t user asset⟩

end YieldLadder.Deployment
