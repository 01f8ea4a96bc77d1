import YieldLadder.Router.Calls
import YieldLadder.Vault.Privilege

/-! # The router wired to the four vaults

The four vaults sit at distinct contract addresses, answer to the router as
admin, and are entered from outside by accounts and other contracts. `Effect`
lists what a successful call does to the vaults and the tokens.
-/
namespace YieldLadder
open Foundation

/-- The addresses of the router and of the four vaults. -/
structure Deployment where
  routerId : ℕ
  vaultId : Tier → ℕ
  injective : vaultId.Injective
  router_ne : ∀ t, vaultId t ≠ routerId

namespace Deployment
variable (D : Deployment)

def router : Address := .contract D.routerId
def vault (t : Tier) : Address := .contract (D.vaultId t)

/-- Neither the router nor one of its vaults. -/
def Outsider (a : Address) : Prop := a ≠ D.router ∧ ∀ t, a ≠ D.vault t

/-- The call enters the system from outside, and no vault is initialised by it. -/
structure Admits (c : World.Invocation) : Prop where
  caller : ∀ a ∈ c.1.caller, D.Outsider a
  operation : ∀ callee args, c.2 ≠ .vault callee (.initialise args)

/-- A token that lets no one but the router move what a vault holds. -/
def Guards (rule : TokenRule) : Prop := ∀ c t, rule.grants c (D.vault t) = true → c = D.router

/-- The state the deployment stays in. -/
structure Wired (w : World) : Prop where
  router : ∃ i, w.router.inst = some i ∧ ∀ t, i.vault t = D.vault t
  vault : ∀ t, ∃ v, w.vaults (D.vault t) = some v
  only : ∀ a v, w.vaults a = some v → ∃ t, a = D.vault t ∧ v.tier = t
  admin : ∀ a v, w.vaults a = some v → v.admin = some D.router
  coherent : ∀ a v, w.vaults a = some v → v.book.Coherent

/-- The router and the vaults right after their `initialise`. -/
structure Fresh (w : World) : Prop where
  router : ∃ i, w.router.inst = some i ∧ ∀ t, i.vault t = D.vault t
  vault : ∀ t, ∃ v, w.vaults (D.vault t) = some v
  only : ∀ a v, w.vaults a = some v →
    ∃ t, a = D.vault t ∧ TierVault.Initialised t v ∧ v.admin = some D.router
  tokens : ∀ asset holder, 0 ≤ w.tokens asset holder

variable {D}

theorem vault_inj {t t' : Tier} : D.vault t = D.vault t' ↔ t = t' := by
  simp [vault, D.injective.eq_iff]

theorem vault_ne_router (t : Tier) : D.vault t ≠ D.router := by
  simp [vault, router, D.router_ne t]

theorem Fresh.wired {w : World} (h : D.Fresh w) : D.Wired w where
  router := h.router
  vault := h.vault
  only a v hv := by
    obtain ⟨t, ha, ⟨env, args, reply, hinit⟩, _⟩ := h.only a v hv
    have htier := TierVault.step_tier hinit
    refine ⟨t, ha, htier.trans ?_⟩
    cases t <;> rfl
  admin a v hv := by
    obtain ⟨t, _, _, hadmin⟩ := h.only a v hv
    exact hadmin
  coherent a v hv := by
    obtain ⟨t, _, hinit, _⟩ := h.only a v hv
    rw [TierVault.initialised_book hinit]
    exact Book.coherent_empty

theorem outsider_of_authorized {env : Env} (h : ∀ a ∈ env.caller, D.Outsider a) {a : Address}
    (ha : env.Authorized a) : D.Outsider a := by
  rcases ha with ⟨n, _, rfl⟩ | ha
  · exact ⟨by simp [router], by simp [vault]⟩
  · exact h a ha

def paid (tokens : Tokens) (asset vault user : Address) (p : ℤ) : Tokens :=
  if p > 0 then tokens.move asset vault user p else tokens

/-- One vault ran `call`, and the world has its new state. -/
structure Ran (D : Deployment) (env : Env) (w w' : World) (tier : Tier) (call : VaultCall)
    (v v' : TierVault) (reply : Reply) : Prop where
  operation : TierVault.IsOperation call
  found : w.vaults (D.vault tier) = some v
  outcome : TierVault.Outcome env v v' call reply
  step : v.step env call = .ok (v', reply)
  vaults : w'.vaults = Function.update w.vaults (D.vault tier) (some v')

/-- The call is none of the three that move tokens out of or past the router's deposits. -/
structure Quiet (action : World.Action) : Prop where
  withdraw : ∀ user tier asset amount, action ≠ .router (.withdraw user tier asset amount)
  earlyExit : ∀ user tier asset amount, action ≠ .router (.earlyExit user tier asset amount)
  transfer : ∀ asset src dst amount, action ≠ .transfer asset src dst amount

/-- What a successful call does to the vaults and the tokens. -/
inductive Effect (D : Deployment) (env : Env) (w w' : World) : World.Action → Prop
  | quiet (action : World.Action) (hq : Quiet action) (hv : w'.vaults = w.vaults)
      (ht : w'.tokens = w.tokens) : Effect D env w w' action
  | transfer (asset src dst : Address) (amount : ℤ) (hsrc : ∀ t, src ≠ D.vault t) (h0 : 0 ≤ amount)
      (hv : w'.vaults = w.vaults) (ht : w'.tokens = w.tokens.move asset src dst amount) :
      Effect D env w w' (.transfer asset src dst amount)
  | keep (action : World.Action) (hq : Quiet action) (env' : Env) (tier : Tier) (call : VaultCall)
      (v v' : TierVault) (reply : Reply) (hran : Ran D env' w w' tier call v v' reply)
      (hbook : v'.book = v.book) (ht : w'.tokens = w.tokens) : Effect D env w w' action
  | deposit (user : Address) (tier : Tier) (asset : Address) (amount : ℤ) (v v' : TierVault)
      (reply : Reply) (huser : env.Authorized user)
      (hran : Ran D (env.calledBy D.router) w w' tier (.deposit user asset amount) v v' reply)
      (ht : w'.tokens = w.tokens.move asset user (D.vault tier) amount) :
      Effect D env w w' (.router (.deposit user tier asset amount))
  | withdraw (user : Address) (tier : Tier) (asset : Address) (amount : ℤ) (v v' : TierVault)
      (reply : Reply) (hrun : VaultRouter.isPaused w.router = false) (huser : env.Authorized user)
      (hran : Ran D (env.calledBy D.router) w w' tier (.withdraw user asset amount) v v' reply)
      (ht : w'.tokens = paid w.tokens asset (D.vault tier) user amount) :
      Effect D env w w' (.router (.withdraw user tier asset amount))
  | earlyExit (user : Address) (tier : Tier) (asset : Address) (amount : ℤ) (v v' : TierVault)
      (reply : Reply) (hrun : VaultRouter.isPaused w.router = false) (huser : env.Authorized user)
      (hran : Ran D (env.calledBy D.router) w w' tier (.earlyExit user asset amount) v v' reply)
      (ht : w'.tokens = paid w.tokens asset (D.vault tier) user (amount - v.exitFee asset amount)) :
      Effect D env w w' (.router (.earlyExit user tier asset amount))

theorem Wired.vaultAddr {w : World} (h : D.Wired w) (tier : Tier) :
    VaultRouter.vaultAddr w.router tier = .ok (D.vault tier) := by
  obtain ⟨i, hi, hvault⟩ := h.router
  simp [VaultRouter.vaultAddr, VaultRouter.unwrap, hi, hvault]

theorem Wired.vaultAddr_ok {w : World} (h : D.Wired w) {tier : Tier} {a : Address}
    (ha : VaultRouter.vaultAddr w.router tier = .ok a) : a = D.vault tier :=
  (Except.ok.inj ((h.vaultAddr tier).symm.trans ha)).symm

theorem invoke_ran {env : Env} {w : World} {tier : Tier} {call : VaultCall} {r : World × Reply}
    (hc : TierVault.IsOperation call) (h : World.invoke env w (D.vault tier) call = .ok r) :
    ∃ v v', Ran D env w r.1 tier call v v' r.2 ∧ r.1.router = w.router ∧ r.1.tokens = w.tokens := by
  simp only [World.invoke, bind_eq_ok, expect_eq_ok, pure_eq_ok] at h
  obtain ⟨v, hv, ⟨v', reply⟩, hs, rfl⟩ := h
  exact ⟨v, v', ⟨hc, hv, TierVault.step_outcome hc hs, hs, rfl⟩, rfl, rfl⟩

/-- What a router exit does, the vault's answer being `payout`. -/
theorem payOut_ok {rule : TokenRule} {env : Env} {w : World} {user : Address} {tier : Tier}
    {asset : Address} {call : VaultCall} {r : World × Reply} (hw : D.Wired w)
    (hc : TierVault.IsOperation call)
    (h : VaultRouter.payOut rule D.router env w user tier asset call = .ok r) :
    ∃ v v' reply payout, VaultRouter.isPaused w.router = false ∧ env.Authorized user ∧
      Ran D (env.calledBy D.router) w r.1 tier call v v' reply ∧ reply.value = .i128 payout ∧
      r.1.tokens = paid w.tokens asset (D.vault tier) user payout ∧ r.1.router = w.router ∧
      r.2 = ⟨.unit, reply.events⟩ ∧ (0 < payout →
        rule.Allows (env.calledBy D.router) (D.vault tier) ∧
          payout ≤ w.tokens asset (D.vault tier)) := by
  simp only [VaultRouter.payOut, VaultRouter.requireNotPaused, bind_eq_ok, failIf_eq_ok,
    Env.requireAuth_eq_ok, Value.asI128_eq_ok, pure_eq_ok, Bool.not_eq_true] at h
  obtain ⟨_, hrun, _, huser, a, ha, ⟨w', reply⟩, hinvoke, payout, hpay, tokens, ht, rfl⟩ := h
  obtain rfl := hw.vaultAddr_ok ha
  obtain ⟨v, v', hran, hrouter, htokens⟩ := invoke_ran hc hinvoke
  dsimp only at hrouter htokens hpay ht
  refine ⟨v, v', reply, payout, hrun, huser, ⟨hran.operation, hran.found, hran.outcome, hran.step, hran.vaults⟩,
    hpay, ?_, hrouter, rfl, ?_⟩
  · unfold paid
    unfold VaultRouter.sendPayout at ht
    split at ht
    · next hpos =>
      rw [if_pos hpos]
      exact htokens ▸ (Tokens.transfer_eq_ok.mp ht).2.2.2.symm
    · next hpos =>
      rw [if_neg hpos]
      exact htokens ▸ (pure_eq_ok.mp ht).symm
  · intro hpos
    rw [VaultRouter.sendPayout, if_pos hpos] at ht
    obtain ⟨hallow, _, hle, _⟩ := Tokens.transfer_eq_ok.mp ht
    exact ⟨hallow, htokens ▸ hle⟩

/-- The addresses the router has stored. -/
def Routed (D : Deployment) (s : VaultRouter.State) : Prop :=
  ∃ i, s.inst = some i ∧ ∀ t, i.vault t = D.vault t

theorem Routed.switch {env : Env} {s s' : VaultRouter.State} (hs : D.Routed s)
    (h : VaultRouter.Switch env s s') : D.Routed s' := by
  obtain ⟨i, hi, hvault⟩ := hs
  cases h with
  | keep hsame => exact ⟨i, hsame.trans hi, hvault⟩
  | setup hnone => cases hi.symm.trans hnone
  | breaker j active hj _ hnew =>
    obtain rfl : i = j := Option.some.inj (hi.symm.trans hj)
    exact ⟨_, hnew, hvault⟩

/-- A router call, case by case. -/
theorem router_effect {rule : TokenRule} {env : Env} {w : World} {call : VaultRouter.Call}
    {r : World × Reply} (hw : D.Wired w)
    (h : VaultRouter.step rule D.router env w call = .ok r) :
    Effect D env w r.1 (.router call) ∧ D.Routed r.1.router := by
  cases hforward : call.forwarded with
  | none =>
    obtain ⟨hvaults, htokens, hswitch⟩ := VaultRouter.step_local hforward h
    refine ⟨.quiet _ ⟨?_, ?_, by simp⟩ hvaults htokens, Routed.switch hw.router hswitch⟩
    · rintro user tier asset amount heq
      cases heq
      cases hforward
    · rintro user tier asset amount heq
      cases heq
      cases hforward
  | some forwarded =>
    have hsame : r.1.router = w.router := (VaultRouter.step_forwarded hforward h).2.1
    refine ⟨?_, hsame ▸ hw.router⟩
    cases call with
    | deposit user tier asset amount =>
      simp only [VaultRouter.step, VaultRouter.deposit, bind_eq_ok, failIf_eq_ok,
        Env.requireAuth_eq_ok, Tokens.transfer_eq_ok, pure_eq_ok] at h
      obtain ⟨_, _, _, huser, _, _, _, _, a, ha, tokens, ⟨_, _, _, rfl⟩, ⟨w', reply⟩, hinvoke, rfl⟩ := h
      obtain rfl := hw.vaultAddr_ok ha
      obtain ⟨v, v', hran, _, htokens⟩ := invoke_ran (by simp [TierVault.IsOperation]) hinvoke
      exact .deposit user tier asset amount v v' reply huser
        ⟨hran.operation, hran.found, hran.outcome, hran.step, hran.vaults⟩ htokens
    | withdraw user tier asset amount =>
      obtain ⟨v, v', reply, payout, hrun, huser, hran, hpay, ht, _⟩ :=
        payOut_ok hw (by simp [TierVault.IsOperation]) h
      have hp : payout = amount := by
        cases hran.outcome with
        | withdraw => exact (Value.i128.inj hpay).symm
        | other _ _ _ _ _ hno => exact absurd rfl (hno _ _ _)
      exact .withdraw user tier asset amount v v' reply hrun huser hran (hp ▸ ht)
    | earlyExit user tier asset amount =>
      obtain ⟨v, v', reply, payout, hrun, huser, hran, hpay, ht, _⟩ :=
        payOut_ok hw (by simp [TierVault.IsOperation]) h
      have hp : payout = amount - v.exitFee asset amount := by
        cases hran.outcome with
        | earlyExit => exact (Value.i128.inj hpay).symm
        | other _ _ _ _ _ _ hno => exact absurd rfl (hno _ _ _)
      exact .earlyExit user tier asset amount v v' reply hrun huser hran (hp ▸ ht)
    | setMaxTvl tier newCap =>
      obtain ⟨i, hi, hvault⟩ := hw.router
      simp only [VaultRouter.step, VaultRouter.setMaxTvl, VaultRouter.unwrap, bind_eq_ok, expect_eq_ok,
        pure_eq_ok, hi, Option.some.injEq] at h
      obtain ⟨_, rfl, _, _, ⟨w', reply⟩, hinvoke, rfl⟩ := h
      rw [hvault] at hinvoke
      obtain ⟨v, v', hran, _, htokens⟩ := invoke_ran (by simp [TierVault.IsOperation]) hinvoke
      have hbook : v'.book = v.book := by
        cases hran.outcome with
        | other _ _ hbook => exact hbook
      exact .keep _ ⟨by simp, by simp, by simp⟩ _ tier _ v v' _ hran hbook htokens
    | relock user tier asset =>
      simp only [VaultRouter.step, VaultRouter.relock, bind_eq_ok, pure_eq_ok] at h
      obtain ⟨_, _, _, _, a, ha, ⟨w', reply⟩, hinvoke, _, _, rfl⟩ := h
      obtain rfl := hw.vaultAddr_ok ha
      obtain ⟨v, v', hran, _, htokens⟩ := invoke_ran (by simp [TierVault.IsOperation]) hinvoke
      have hbook : v'.book = v.book := by
        cases hran.outcome with
        | other _ _ hbook => exact hbook
      exact .keep _ ⟨by simp, by simp, by simp⟩ _ tier _ v v' _ hran hbook htokens
    | _ => cases hforward

variable {rule : TokenRule} {w : World} {c : World.Invocation} {r : World × Reply}

/-- The vault's admin is the router, so nobody outside moves a vault's book directly. -/
theorem direct_book {env : Env} {call : VaultCall} {v v' : TierVault} {reply : Reply}
    (henv : ∀ a ∈ env.caller, D.Outsider a) (hv : v.admin = some D.router)
    (h : TierVault.Outcome env v v' call reply) : v'.book = v.book := by
  have hno : ¬v.AdminAuthorized env := by
    rintro ⟨a, ha, hauth⟩
    rw [hv] at ha
    cases ha
    exact (outsider_of_authorized henv hauth).1 rfl
  cases h with
  | deposit _ _ _ hauth => exact absurd hauth hno
  | withdraw _ _ _ hauth => exact absurd hauth hno
  | earlyExit _ _ _ hauth => exact absurd hauth hno
  | other _ _ hbook => exact hbook

theorem exec_effect (hw : D.Wired w) (hg : D.Guards rule) (hc : D.Admits c)
    (h : World.exec rule D.router w c = .ok r) : Effect D c.1 w r.1 c.2 ∧ D.Routed r.1.router := by
  obtain ⟨env, action⟩ := c
  cases action with
  | router call => exact router_effect hw h
  | vault callee call =>
    have hop : TierVault.IsOperation call := fun args heq => hc.operation callee args (heq ▸ rfl)
    have hfound : ∃ v, w.vaults callee = some v := by
      simp only [World.exec, World.invoke, bind_eq_ok, expect_eq_ok] at h
      obtain ⟨v, hv, _⟩ := h
      exact ⟨v, hv⟩
    obtain ⟨v, hv⟩ := hfound
    obtain ⟨t, rfl, _⟩ := hw.only callee v hv
    obtain ⟨v, v', hran, hrouter, htokens⟩ := invoke_ran hop h
    have hbook := direct_book hc.caller (hw.admin _ _ hran.found) hran.outcome
    refine ⟨.keep _ ⟨by simp, by simp, by simp⟩ env t call v v' r.2 hran hbook htokens, ?_⟩
    rw [hrouter]
    exact hw.router
  | transfer asset src dst amount =>
    simp only [World.exec, bind_eq_ok, Tokens.transfer_eq_ok, pure_eq_ok] at h
    obtain ⟨_, ⟨hallow, h0, _, rfl⟩, rfl⟩ := h
    refine ⟨.transfer asset src dst amount (fun t hsrc => ?_) h0 rfl rfl, hw.router⟩
    rcases hallow with hauth | ⟨c, hcaller, hgrant⟩
    · exact (outsider_of_authorized hc.caller hauth).2 t hsrc
    · rw [hsrc] at hgrant
      exact (hc.caller c hcaller).1 (hg c t hgrant)

theorem Ran.wired {env : Env} {w' : World} {tier : Tier} {call : VaultCall} {v v' : TierVault}
    {reply : Reply} (hw : D.Wired w) (h : Ran D env w w' tier call v v' reply)
    (hr : D.Routed w'.router) : D.Wired w' := by
  have hadmin := TierVault.operation_admin h.operation (hw.admin _ _ h.found) h.step
  have hcoh := TierVault.step_coherent h.operation (hw.coherent _ _ h.found) h.step
  have hold : ∀ {a x}, w'.vaults a = some x →
      a = D.vault tier ∧ x = v' ∨ a ≠ D.vault tier ∧ w.vaults a = some x := by
    intro a x hx
    rw [h.vaults, Function.update_apply] at hx
    split at hx
    · next ha => exact .inl ⟨ha, (Option.some.inj hx).symm⟩
    · next ha => exact .inr ⟨ha, hx⟩
  constructor
  · exact hr
  · intro t
    obtain ⟨x, hx⟩ := hw.vault t
    by_cases ht : D.vault t = D.vault tier
    · exact ⟨v', by rw [h.vaults, ht, Function.update_self]⟩
    · exact ⟨x, by rw [h.vaults, Function.update_of_ne ht, hx]⟩
  · intro a x hx
    rcases hold hx with ⟨ha, rfl⟩ | ⟨_, hx⟩
    · obtain ⟨t, hat, htier⟩ := hw.only _ _ h.found
      exact ⟨t, ha.trans hat, (TierVault.step_tier h.step).trans htier⟩
    · exact hw.only a x hx
  · intro a x hx
    rcases hold hx with ⟨_, rfl⟩ | ⟨_, hx⟩
    · exact hadmin
    · exact hw.admin a x hx
  · intro a x hx
    rcases hold hx with ⟨_, rfl⟩ | ⟨_, hx⟩
    · exact hcoh
    · exact hw.coherent a x hx

theorem exec_wired (hw : D.Wired w) (hg : D.Guards rule) (hc : D.Admits c)
    (h : World.exec rule D.router w c = .ok r) : D.Wired r.1 := by
  have hsame : r.1.vaults = w.vaults → D.Routed r.1.router → D.Wired r.1 := by
    intro hv hr
    exact ⟨hr, hv ▸ hw.vault, hv ▸ hw.only, hv ▸ hw.admin, hv ▸ hw.coherent⟩
  obtain ⟨heffect, hr⟩ := exec_effect hw hg hc h
  obtain ⟨env, action⟩ := c
  cases heffect with
  | quiet _ _ hv => exact hsame hv hr
  | transfer _ _ _ _ _ _ hv => exact hsame hv hr
  | keep _ _ _ _ _ _ _ _ hran => exact hran.wired hw hr
  | deposit _ _ _ _ _ _ _ _ hran => exact hran.wired hw hr
  | withdraw _ _ _ _ _ _ _ _ _ hran => exact hran.wired hw hr
  | earlyExit _ _ _ _ _ _ _ _ _ hran => exact hran.wired hw hr

theorem run_wired (hw : D.Wired w) (hg : D.Guards rule) {cs : List World.Invocation}
    (hcs : ∀ c ∈ cs, D.Admits c) : D.Wired (run (World.exec rule D.router) w cs) := by
  have hm : Meets (World.exec rule D.router) (fun _ c => D.Admits c) w cs := meets_of_forall hcs
  exact run_invariant_of_meets (I := D.Wired) (fun _ _ _ hc hw h => exec_wired hw hg hc h) hw hm

/-- The deployment of the integration tests: the router, four initialised vaults and two assets. -/
def harness : Deployment where
  routerId := 0
  vaultId
    | .flex => 1
    | .l3 => 2
    | .l6 => 3
    | .l12 => 4
  injective := by
    intro t t' h
    cases t <;> cases t' <;> first | rfl | cases h
  router_ne t := by cases t <;> decide

def usdc : Address := .contract 5
def eurc : Address := .contract 6

/-- Its state once accounts 7 and 8 have been funded with both assets. -/
def harnessWorld : World where
  router := ⟨some ⟨.account 1, .account 2, .account 3, .contract 1, .contract 2, .contract 3, .contract 4,
    false⟩, ⟨some (.account 1), (Store.empty.set usdc true).set eurc true⟩⟩
  vaults
    | .contract 1 => some (.flex { VaultFlex.State.empty with
        inst := some ⟨harness.router, .account 4, 0, 0⟩ })
    | .contract 2 => some (.l3 { VaultL3.State.empty with
        core.inst := some (Locked.freshInstance harness.router (.account 2) (.account 4) usdc 0)
        guardian := some (.account 3) })
    | .contract 3 => some (.l6 { Locked.State.empty with
        inst := some (Locked.freshInstance harness.router (.account 2) (.account 4) usdc 0) })
    | .contract 4 => some (.l12 { Locked.State.empty with
        inst := some (Locked.freshInstance harness.router (.account 2) (.account 4) usdc 0) })
    | _ => none
  tokens asset holder :=
    if (asset = usdc ∨ asset = eurc) ∧ (holder = .account 7 ∨ holder = .account 8)
    then 20_000_000_000 else 0

theorem harness_fresh : harness.Fresh harnessWorld where
  router := ⟨_, rfl, fun t => by cases t <;> rfl⟩
  vault t := by cases t <;> exact ⟨_, rfl⟩
  only a v hv := by
    have hinit : ∀ (t : Tier) args r, TierVault.step ⟨[], some harness.router, 0⟩
        (TierVault.deployed t) (.initialise args) = .ok r → TierVault.Initialised t r.1 :=
      fun t args r h => ⟨_, args, r.2, h⟩
    unfold harnessWorld at hv
    dsimp only at hv
    split at hv <;> cases hv
    · exact ⟨.flex, rfl, hinit .flex (.flex harness.router (.account 4)) (_, _) rfl, rfl⟩
    · exact ⟨.l3, rfl, hinit .l3
        (.guarded harness.router (.account 2) (.account 3) (.account 4) usdc 0) (_, _) rfl, rfl⟩
    · exact ⟨.l6, rfl, hinit .l6
        (.locked harness.router (.account 2) (.account 4) usdc 0) (_, _) rfl, rfl⟩
    · exact ⟨.l12, rfl, hinit .l12
        (.locked harness.router (.account 2) (.account 4) usdc 0) (_, _) rfl, rfl⟩
  tokens asset holder := by
    unfold harnessWorld
    dsimp only
    split <;> decide

def signed (ledger : ℕ) (call : VaultRouter.Call) : World.Invocation :=
  (⟨[7, 8], none, ledger⟩, .router call)

def deposited : World :=
  run (World.exec .host harness.router) harnessWorld [signed 1 (.deposit (.account 7) .flex usdc 10_000_000)]

theorem admits_signed (ledger : ℕ) (call : VaultRouter.Call) : D.Admits (signed ledger call) where
  caller := by simp [signed]
  operation := by simp [signed]

theorem guards_host : D.Guards .host := by
  intro c t h
  cases h

theorem guards_payouts (custodian : Address → Bool) : D.Guards (.payouts D.router custodian) := by
  intro c t h
  simp only [TokenRule.payouts, Bool.and_eq_true, decide_eq_true_eq] at h
  exact h.1

end Deployment
end YieldLadder
