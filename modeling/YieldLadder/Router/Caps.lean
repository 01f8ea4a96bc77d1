import YieldLadder.Foundation.Replay
import YieldLadder.Reconcile.VaultEvents
import YieldLadder.Router.Views

/-! # The caps and what counts towards them

Each locked vault has a cap that its governance sets, through the router or directly, and a total that
deposits add to and exits take from. In a run from a wired state the caps and totals are the replay of
the accepted calls, and what each of those asked for was within the caps and totals before it.
-/
namespace YieldLadder
open Foundation

namespace TierVault

def Capped (v : TierVault) (governance : Address) (cap : ℤ) : Prop :=
  ∃ s i, v.core = some s ∧ s.inst = some i ∧ i.governance = governance ∧ i.maxTvl = cap

def capAfter (cap : ℤ) : VaultCall → ℤ
  | .setMaxTvl newCap => newCap
  | _ => cap

variable {env : Env} {v : TierVault} {governance : Address} {cap : ℤ} {call : VaultCall} {r : TierVault × Reply}

theorem Capped.totalBalance {s : Locked.State} {i : Locked.Instance} (hs : v.core = some s) (hi : s.inst = some i) :
    v.totalBalance = i.totalBalance := by
  rw [totalBalance_of_core hs, Locked.totalBalance, hi]
  rfl

/-- A locked operation keeps the governance, sets the cap for it alone, and deposits up to the cap. -/
theorem Capped.step (hv : v.Capped governance cap) (hop : IsOperation call) (h : v.step env call = .ok r) :
    r.1.Capped governance (capAfter cap call) ∧
      (∀ newCap, call = .setMaxTvl newCap → env.Authorized governance) ∧
      ∀ user asset amount, call = .deposit user asset amount → v.totalBalance + amount ≤ cap := by
  obtain ⟨v', reply⟩ := r
  obtain ⟨s, i, hs, hi, rfl, rfl⟩ := hv
  obtain ⟨p, hp⟩ := exists_params hs
  rw [Capped.totalBalance hs hi]
  obtain ⟨s', hs', _, ⟨hrun, _⟩ | ⟨args, _, _, _, _, _, rfl, _⟩ | ⟨hflag, rfl, _⟩⟩ := step_core hp hs h
  · cases Locked.operate_effect hrun with
    | deposit user asset amount j hj _ _ hcap hinst =>
      obtain rfl := Option.some.inj (hi.symm.trans hj)
      refine ⟨⟨s', _, hs', hinst, rfl, rfl⟩, by simp, ?_⟩
      rintro _ _ _ heq
      cases heq
      exact hcap
    | withdraw user asset amount j hj _ _ _ htake =>
      obtain rfl := Option.some.inj (hi.symm.trans hj)
      exact ⟨⟨s', _, hs', (Locked.takeOut_ok hi htake).2.2.1, rfl, rfl⟩, by simp, by simp⟩
    | earlyExit user asset amount j hj _ _ htake =>
      obtain rfl := Option.some.inj (hi.symm.trans hj)
      exact ⟨⟨s', _, hs', (Locked.takeOut_ok hi htake).2.2.1, rfl, rfl⟩, by simp, by simp⟩
    | relock user asset j hj _ _ hr =>
      refine ⟨⟨s', i, hs', ?_, rfl, rfl⟩, by simp, by simp⟩
      rw [hr]
      exact hi
    | setMaxTvl newCap j hj hauth hr =>
      obtain rfl := Option.some.inj (hi.symm.trans hj)
      refine ⟨⟨s', { i with maxTvl := newCap }, hs', by rw [hr], rfl, rfl⟩, ?_, by simp⟩
      intro _ _
      exact hauth
    | query q value hr => exact ⟨⟨s', i, hs', hr ▸ hi, rfl, rfl⟩, by simp, by simp⟩
  · exact absurd rfl (hop args)
  · have hkept : capAfter i.maxTvl call = i.maxTvl := by
      rcases hflag with ⟨_, _, rfl⟩ | ⟨_, rfl⟩ <;> rfl
    rw [hkept]
    refine ⟨⟨_, i, hs', hi, rfl, rfl⟩, ?_, ?_⟩ <;>
      rcases hflag with ⟨_, _, rfl⟩ | ⟨_, rfl⟩ <;> simp

theorem Capped.setMaxTvl_iff (hv : v.Capped governance cap) (newCap : ℤ) :
    (∃ r, v.step env (.setMaxTvl newCap) = .ok r) ↔ env.Authorized governance := by
  obtain ⟨s, i, hs, hi, rfl, rfl⟩ := hv
  obtain ⟨p, hp⟩ := exists_params hs
  have hflag : ¬AboutFlags (.setMaxTvl newCap) := by
    rintro (⟨_, _, heq⟩ | ⟨_, heq⟩) <;> cases heq
  rw [exists_step_iff hp hs (by simp) hflag]
  simp only [Locked.operate, Locked.setMaxTvl, hi, bind_eq_ok, expect_eq_ok, Option.some.injEq,
    Env.requireAuth_eq_ok, pure_eq_ok]
  constructor
  · rintro ⟨_, _, ⟨_, rfl, _, hauth, _⟩, _⟩
    exact hauth
  · intro hauth
    exact ⟨_, _, ⟨i, rfl, (), hauth, rfl⟩, rfl⟩

end TierVault

namespace Deployment
open TierVault (moved capAfter)
variable (D : Deployment)

def tierAt (a : Address) : Option Tier := [Tier.flex, .l3, .l6, .l12].find? (D.vault · = a)

/-- The vault call that an action comes down to, and the tier of the vault. -/
def called : World.Action → Option (Tier × VaultCall)
  | .router call => call.forwarded
  | .vault callee call => (D.tierAt callee).map (·, call)
  | .transfer _ _ _ _ => none

/-- In whose name the vault is called. -/
def callerOf (c : World.Invocation) : Env :=
  match c.2 with
  | .router _ => c.1.calledBy D.router
  | _ => c.1

/-- Who sets the caps, the caps, and what counts towards them. -/
structure Tvl where
  governance : Address
  governor : Tier → Address
  cap : Tier → ℤ
  total : Tier → ℤ

namespace Tvl

/-- After a call of the vault of tier `t`. -/
def after (k : Tvl) (t : Tier) (call : VaultCall) : Tvl where
  governance := k.governance
  governor := k.governor
  cap t' := if t' = t then capAfter (k.cap t) call else k.cap t'
  total t' := if t' = t then k.total t + moved (fun _ => True) call else k.total t'

def apply (k : Tvl) (e : World.Invocation × Reply) : Tvl :=
  match D.called e.1.2 with
  | some (t, call) => k.after t call
  | none => k

/-- What an accepted call kept to. -/
structure Permits (k : Tvl) (e : World.Invocation × Reply) : Prop where
  raise : ∀ t newCap, D.called e.1.2 = some (t, .setMaxTvl newCap) →
    t ≠ .flex ∧ (D.callerOf e.1).Authorized (k.governor t)
  governed : ∀ t newCap, e.1.2 = .router (.setMaxTvl t newCap) → e.1.1.Authorized k.governance
  deposit : ∀ t user asset amount, D.called e.1.2 = some (t, .deposit user asset amount) → t ≠ .flex →
    k.total t + amount ≤ k.cap t
  exit : ∀ t user asset amount, D.called e.1.2 = some (t, .withdraw user asset amount) ∨
    D.called e.1.2 = some (t, .earlyExit user asset amount) → amount ≤ k.total t
  view : ∀ t, e.1.2 = .router (.vaultCapacity t) →
    t ≠ .flex ∧ e.2.value = .capacity (k.cap t) (max (k.cap t - k.total t) 0)

/-- The router and the vaults have what the replay says. -/
structure Stored (w : World) (k : Tvl) : Prop where
  governance : ∃ i, w.router.inst = some i ∧ i.governance = k.governance
  capped : ∀ t v, t ≠ .flex → w.vaults (D.vault t) = some v → v.Capped (k.governor t) (k.cap t)
  total : ∀ t v, w.vaults (D.vault t) = some v → v.totalBalance = k.total t

end Tvl

variable {D} {rule : TokenRule} {w : World} {c : World.Invocation} {r : World × Reply} {k : Tvl} {t : Tier}
variable {env : Env} {newCap : ℤ} {cs : List World.Invocation}

theorem tierAt_vault (t : Tier) : D.tierAt (D.vault t) = some t := by
  have hinj : ∀ t' : Tier, decide (D.vault t' = D.vault t) = decide (t' = t) := by
    intro t'
    rw [decide_eq_decide, vault_inj]
  simp only [tierAt, hinj]
  cases t <;> rfl

theorem exec_called (hw : D.Wired w) (hc : D.Admits c) (h : World.exec rule D.router w c = .ok r) :
    (D.called c.2 = none ∧ r.1.vaults = w.vaults) ∨ ∃ t call v v' reply,
      D.called c.2 = some (t, call) ∧ Ran D (D.callerOf c) w r.1 t call v v' reply := by
  obtain ⟨env, action⟩ := c
  cases action with
  | router call =>
    cases hforward : call.forwarded with
    | none => exact .inl ⟨hforward, (VaultRouter.step_local hforward h).1⟩
    | some forwarded =>
      obtain ⟨tier, vaultCall⟩ := forwarded
      obtain ⟨v, v', reply, hran⟩ := ran_of_forwarded hw (VaultRouter.forwarded_operation hforward)
        (VaultRouter.step_forwarded hforward h).1
      exact .inr ⟨tier, vaultCall, v, v', reply, hforward, hran⟩
  | vault callee call =>
    have hop : TierVault.IsOperation call := fun args heq => hc.operation callee args (heq ▸ rfl)
    obtain ⟨tier, rfl⟩ : ∃ tier, callee = D.vault tier := by
      simp only [World.exec, World.invoke, bind_eq_ok, expect_eq_ok] at h
      obtain ⟨v, hv, _⟩ := h
      obtain ⟨tier, hcallee, _⟩ := hw.only callee v hv
      exact ⟨tier, hcallee⟩
    obtain ⟨v, v', hran, _⟩ := invoke_ran hop h
    refine .inr ⟨tier, call, v, v', r.2, ?_, hran⟩
    rw [called, tierAt_vault]
    rfl
  | transfer asset src dst amount =>
    simp only [World.exec, bind_eq_ok, pure_eq_ok] at h
    obtain ⟨_, _, rfl⟩ := h
    exact .inl ⟨rfl, rfl⟩

theorem exec_governance (hk : ∃ i, w.router.inst = some i ∧ i.governance = k.governance)
    (h : World.exec rule D.router w c = .ok r) : ∃ i, r.1.router.inst = some i ∧ i.governance = k.governance := by
  obtain ⟨i, hi, hgovernance⟩ := hk
  cases World.exec_switch h with
  | keep hsame => exact ⟨i, hsame.trans hi, hgovernance⟩
  | setup hnone => cases hnone.symm.trans hi
  | breaker j active hj _ hnew =>
    obtain rfl := Option.some.inj (hi.symm.trans hj)
    exact ⟨_, hnew, hgovernance⟩

theorem Wired.locked {v : TierVault} (hw : D.Wired w) (hv : w.vaults (D.vault t) = some v) (ht : t ≠ .flex) :
    ∃ s, v.core = some s := by
  obtain ⟨tier, htier, rfl⟩ := hw.only _ v hv
  obtain rfl := vault_inj.mp htier
  cases v with
  | flex s => exact absurd rfl ht
  | _ => exact ⟨_, rfl⟩

theorem Wired.flex {v : TierVault} (hw : D.Wired w) (hv : w.vaults (D.vault .flex) = some v) :
    ∃ s, v = .flex s := by
  obtain ⟨tier, htier, hflex⟩ := hw.only _ v hv
  obtain rfl : Tier.flex = tier := vault_inj.mp htier
  cases v with
  | flex s => exact ⟨s, rfl⟩
  | _ => cases hflex

/-- What a vault was asked for was within what the replay has of it, and the replay follows. -/
theorem Ran.stored {w' : World} {call : VaultCall} {v v' : TierVault} {reply : Reply} (hw : D.Wired w)
    (hk : k.Stored D w) (hran : Ran D env w w' t call v v' reply)
    (hgovernance : ∃ i, w'.router.inst = some i ∧ i.governance = k.governance) :
    (k.after t call).Stored D w' := by
  have hcoh : v.book.Coherent := hw.coherent _ v hran.found
  have hvaults : ∀ t' x, w'.vaults (D.vault t') = some x →
      t' = t ∧ x = v' ∨ t' ≠ t ∧ w.vaults (D.vault t') = some x := by
    intro t' x hx
    rw [hran.vaults, Function.update_apply] at hx
    split at hx
    · next heq => exact .inl ⟨vault_inj.mp heq, (Option.some.inj hx).symm⟩
    · next hne => exact .inr ⟨fun heq => hne (heq ▸ rfl), hx⟩
  refine ⟨hgovernance, fun t' x ht hx => ?_, fun t' x hx => ?_⟩
  · rcases hvaults t' x hx with ⟨rfl, rfl⟩ | ⟨hne, hx⟩
    · simp only [Tvl.after, if_pos]
      exact ((hk.capped t' v ht hran.found).step hran.operation hran.step).1
    · simp only [Tvl.after, if_neg hne]
      exact hk.capped t' x ht hx
  · rcases hvaults t' x hx with ⟨rfl, rfl⟩ | ⟨hne, hx⟩
    · simp only [Tvl.after, if_pos]
      rw [← hk.total t' v hran.found]
      exact hran.outcome.totalBalance hcoh
    · simp only [Tvl.after, if_neg hne]
      exact hk.total t' x hx

theorem Ran.permits {w' : World} {call : VaultCall} {v v' : TierVault} {reply : Reply} (hw : D.Wired w)
    (hk : k.Stored D w) (hran : Ran D env w w' t call v v' reply) :
    (∀ newCap, call = .setMaxTvl newCap → t ≠ .flex ∧ env.Authorized (k.governor t)) ∧
      (∀ user asset amount, call = .deposit user asset amount → t ≠ .flex → k.total t + amount ≤ k.cap t) ∧
      ∀ user asset amount, call = .withdraw user asset amount ∨ call = .earlyExit user asset amount →
        amount ≤ k.total t := by
  have hcoh : v.book.Coherent := hw.coherent _ v hran.found
  have hcapped : t ≠ .flex → _ := fun ht => (hk.capped t v ht hran.found).step hran.operation hran.step
  rw [← hk.total t v hran.found]
  refine ⟨?_, ?_, ?_⟩
  · rintro newCap rfl
    have ht : t ≠ .flex := by
      rintro rfl
      obtain ⟨s, rfl⟩ := hw.flex hran.found
      cases hran.step
    exact ⟨ht, (hcapped ht).2.1 newCap rfl⟩
  · intro user asset amount hcall ht
    exact (hcapped ht).2.2 user asset amount hcall
  · rintro user asset amount (rfl | rfl)
    · cases hran.outcome with
      | withdraw _ _ _ _ hle => exact hle.trans (hcoh.principal_le_total (user, asset))
      | other _ _ _ _ _ hno => exact absurd rfl (hno _ _ _)
    · cases hran.outcome with
      | earlyExit _ _ _ _ hle => exact hle.trans (hcoh.principal_le_total (user, asset))
      | other _ _ _ _ _ _ hno => exact absurd rfl (hno _ _ _)

theorem capacity_stored {value : Value} (hw : D.Wired w) (hk : k.Stored D w)
    (h : VaultRouter.vaultCapacity D.router env w t = .ok value) :
    t ≠ .flex ∧ value = .capacity (k.cap t) (max (k.cap t - k.total t) 0) := by
  obtain ⟨v, hv⟩ := hw.vault t
  have ht : t ≠ .flex := by
    rintro rfl
    obtain ⟨s, rfl⟩ := hw.flex hv
    cases (vaultCapacity_flex hw hv).symm.trans h
  obtain ⟨s, i, hs, hi, _, hcap⟩ := hk.capped t v ht hv
  obtain ⟨_, rfl⟩ := (vaultCapacity_eq_ok hw hv hs).mp h
  have hmax : Locked.maxTvl s = k.cap t := by
    rw [Locked.maxTvl, hi]
    exact hcap
  rw [hmax, hk.total t v hv]
  exact ⟨ht, rfl⟩

theorem exec_stored (hw : D.Wired w) (hc : D.Admits c) (hk : k.Stored D w)
    (h : World.exec rule D.router w c = .ok r) :
    k.Permits D (c, r.2) ∧ (k.apply D (c, r.2)).Stored D r.1 := by
  have hgovernance := exec_governance hk.governance h
  have hgoverned : ∀ t newCap, c.2 = .router (.setMaxTvl t newCap) → c.1.Authorized k.governance := by
    obtain ⟨env, action⟩ := c
    rintro t newCap rfl
    obtain ⟨i, hi, heq⟩ := hk.governance
    simp only [World.exec, VaultRouter.step, VaultRouter.setMaxTvl, VaultRouter.unwrap, bind_eq_ok, expect_eq_ok,
      Env.requireAuth_eq_ok, hi, Option.some.injEq] at h
    obtain ⟨_, rfl, _, hauth, _⟩ := h
    exact heq ▸ hauth
  have hview : ∀ t, c.2 = .router (.vaultCapacity t) →
      t ≠ .flex ∧ r.2.value = .capacity (k.cap t) (max (k.cap t - k.total t) 0) := by
    obtain ⟨env, action⟩ := c
    rintro t rfl
    simp only [World.exec, VaultRouter.step, bind_eq_ok, pure_eq_ok] at h
    obtain ⟨value, hvalue, rfl⟩ := h
    exact capacity_stored hw hk hvalue
  rcases exec_called hw hc h with ⟨hnone, hvaults⟩ | ⟨t, call, v, v', reply, hcall, hran⟩
  · refine ⟨⟨?_, hgoverned, ?_, ?_, hview⟩, ?_⟩
    · simp [hnone]
    · simp [hnone]
    · simp [hnone]
    · simp only [Tvl.apply, hnone]
      exact ⟨hgovernance, hvaults ▸ hk.capped, hvaults ▸ hk.total⟩
  · obtain ⟨hraise, hdeposit, hexit⟩ := hran.permits hw hk
    refine ⟨⟨?_, hgoverned, ?_, ?_, hview⟩, ?_⟩
    · intro t' newCap heq
      obtain ⟨rfl, rfl⟩ := Prod.mk.inj (Option.some.inj (hcall.symm.trans heq))
      exact hraise newCap rfl
    · intro t' user asset amount heq
      obtain ⟨rfl, rfl⟩ := Prod.mk.inj (Option.some.inj (hcall.symm.trans heq))
      exact hdeposit user asset amount rfl
    · rintro t' user asset amount (heq | heq)
      · obtain ⟨rfl, rfl⟩ := Prod.mk.inj (Option.some.inj (hcall.symm.trans heq))
        exact hexit user asset amount (.inl rfl)
      · obtain ⟨rfl, rfl⟩ := Prod.mk.inj (Option.some.inj (hcall.symm.trans heq))
        exact hexit user asset amount (.inr rfl)
    · simp only [Tvl.apply, hcall]
      exact hran.stored hw hk hgovernance

theorem setMaxTvl_iff (hw : D.Wired w) (hk : k.Stored D w) :
    (∃ r, World.exec rule D.router w (env, .router (.setMaxTvl t newCap)) = .ok r) ↔
      t ≠ .flex ∧ env.Authorized k.governance ∧ (env.calledBy D.router).Authorized (k.governor t) := by
  obtain ⟨i, hi, hgovernance⟩ := hk.governance
  obtain ⟨v, hv⟩ := hw.vault t
  have haddr : i.vault t = D.vault t := by
    obtain ⟨j, hj, hvault⟩ := hw.router
    obtain rfl := Option.some.inj (hi.symm.trans hj)
    exact hvault t
  simp only [World.exec, VaultRouter.step, VaultRouter.setMaxTvl, VaultRouter.unwrap, World.invoke, hi, hv, haddr,
    bind_eq_ok, expect_eq_ok, Env.requireAuth_eq_ok, pure_eq_ok, Option.some.injEq, exists_eq_left']
  constructor
  · rintro ⟨_, _, hauth, _, ⟨q, hstep, _⟩, _⟩
    have ht : t ≠ .flex := by
      rintro rfl
      obtain ⟨s, rfl⟩ := hw.flex hv
      cases hstep
    exact ⟨ht, hgovernance ▸ hauth, ((hk.capped t v ht hv).setMaxTvl_iff newCap).mp ⟨q, hstep⟩⟩
  · rintro ⟨ht, hauth, hgovernor⟩
    obtain ⟨q, hstep⟩ := ((hk.capped t v ht hv).setMaxTvl_iff newCap).mpr hgovernor
    exact ⟨_, (), hgovernance.symm ▸ hauth, _, ⟨q, hstep, rfl⟩, rfl⟩

/-- What the world has at first. -/
def Tvl.of (D : Deployment) (w : World) : Tvl where
  governance := (w.router.inst.map VaultRouter.Instance.governance).getD D.router
  governor t := ((((w.vaults (D.vault t)).bind TierVault.core).bind Locked.State.inst).map
    Locked.Instance.governance).getD D.router
  cap t := (((w.vaults (D.vault t)).bind TierVault.core).map Locked.maxTvl).getD Locked.DEFAULT_MAX_TVL
  total t := ((w.vaults (D.vault t)).map TierVault.totalBalance).getD 0

theorem stored_of (hw : D.Wired w) : (Tvl.of D w).Stored D w := by
  refine ⟨?_, fun t v ht hv => ?_, fun t v hv => ?_⟩
  · obtain ⟨i, hi, _⟩ := hw.router
    refine ⟨i, hi, ?_⟩
    rw [Tvl.of, hi]
    rfl
  · obtain ⟨s, hs⟩ := hw.locked hv ht
    obtain ⟨i, hi, _⟩ := Option.map_eq_some_iff.mp (TierVault.admin_of_core hs ▸ hw.admin _ v hv)
    refine ⟨s, i, hs, hi, ?_, ?_⟩
    · simp [Tvl.of, hv, hs, hi]
    · simp [Tvl.of, hv, hs, Locked.maxTvl, hi]
  · simp [Tvl.of, hv]

theorem Tvl.apply_governance (k : Tvl) (e : World.Invocation × Reply) :
    (k.apply D e).governance = k.governance := by
  unfold Tvl.apply
  split <;> rfl

theorem Tvl.apply_governor (k : Tvl) (e : World.Invocation × Reply) : (k.apply D e).governor = k.governor := by
  unfold Tvl.apply
  split <;> rfl

theorem Tvl.Permits.frozen {e : World.Invocation × Reply} {n : ℕ} (h : k.Permits D e)
    (hn : k.governor t = .contract n) (hself : n ≠ D.routerId) (hquiet : e.1.1.caller ≠ some (.contract n)) :
    (k.apply D e).cap t = k.cap t := by
  have hforeign : ¬(D.callerOf e.1).Authorized (.contract n) := by
    rw [Env.authorized_contract]
    unfold callerOf
    split
    · intro heq
      cases heq
      exact hself rfl
    · exact hquiet
  unfold Tvl.apply
  split
  · next t' call hcall =>
    by_cases ht : t = t'
    · subst ht
      have hkept : capAfter (k.cap t) call = k.cap t := by
        cases call with
        | setMaxTvl newCap => exact absurd (hn ▸ (h.raise t newCap hcall).2) hforeign
        | _ => rfl
      simp only [Tvl.after, if_pos, hkept]
    · simp only [Tvl.after, if_neg ht]
  · rfl

/-- The caps and totals of a run from a wired state are the replay of its accepted calls, each of them permitted. -/
theorem run_stored (hw : D.Wired w) (hg : D.Guards rule) (hcs : ∀ c ∈ cs, D.Admits c) :
    (D.Wired (run (World.exec rule D.router) w cs) ∧
      (replay (Tvl.apply D) (.of D w) (log (World.exec rule D.router) w cs)).Stored D
        (run (World.exec rule D.router) w cs)) ∧
      Permitted (Tvl.apply D) (Tvl.Permits D) (.of D w) (log (World.exec rule D.router) w cs) := by
  have hm : Meets (World.exec rule D.router) (fun _ c => D.Admits c) w cs := meets_of_forall hcs
  refine run_replay (R := fun w (k : Tvl) => D.Wired w ∧ k.Stored D w) ?_ ⟨hw, stored_of hw⟩ hm
  intro w k c r hc hk h
  obtain ⟨hpermits, hstored⟩ := exec_stored hk.1 hc hk.2 h
  exact ⟨hpermits, exec_wired hk.1 hg hc h, hstored⟩

/-- In a run from a wired state the router and the vaults have the caps and totals that the accepted calls add up to,
each of which was permitted by those before it. The router sets a cap exactly for its own governance together with
that of the vault, so never for a vault whose governance is another contract, and with that contract calling no one
the cap stays as it was. -/
theorem run_caps (hw : D.Wired w) (hg : D.Guards rule) (hcs : ∀ c ∈ cs, D.Admits c) :
    let now := run (World.exec rule D.router) w cs
    let k := replay (Tvl.apply D) (.of D w) (log (World.exec rule D.router) w cs)
    k.Stored D now ∧ Permitted (Tvl.apply D) (Tvl.Permits D) (.of D w) (log (World.exec rule D.router) w cs) ∧
      (∀ env t newCap, (∃ r, World.exec rule D.router now (env, .router (.setMaxTvl t newCap)) = .ok r) ↔
        t ≠ .flex ∧ env.Authorized (Tvl.of D w).governance ∧
          (env.calledBy D.router).Authorized ((Tvl.of D w).governor t)) ∧
      ∀ t n, (Tvl.of D w).governor t = .contract n → n ≠ D.routerId →
        (∀ c ∈ cs, c.1.caller ≠ some (.contract n)) → k.cap t = (Tvl.of D w).cap t := by
  intro now k
  obtain ⟨⟨hnow, hstored⟩, hpermitted⟩ := run_stored hw hg hcs
  have hgovernor : k.governor = (Tvl.of D w).governor := replay_unchanged Tvl.apply_governor _ _
  have hgovernance : k.governance = (Tvl.of D w).governance := replay_unchanged Tvl.apply_governance _ _
  refine ⟨hstored, hpermitted, fun env t newCap => ?_, fun t n hn hself hquiet => ?_⟩
  · rw [← hgovernance, ← hgovernor]
    exact setMaxTvl_iff hnow hstored
  · have hfrozen := hpermitted.induction
      (I := fun k => k.governor = (Tvl.of D w).governor ∧ k.cap t = (Tvl.of D w).cap t) ⟨rfl, rfl⟩ ?_
    · exact hfrozen.2
    · rintro k e he hpermits ⟨hsame, hcap⟩
      have hcaller := hquiet e.1 (mem_of_mem_log he)
      exact ⟨(Tvl.apply_governor k e).trans hsame, (hpermits.frozen (hsame ▸ hn) hself hcaller).trans hcap⟩

/-- The governance, account 2, sets the cap of VaultL3 to the 100 USDC of the two deposits; a third one is refused. -/
def cappedRun : List World.Invocation :=
  depositsRun ++ [(⟨[2], none, 3⟩, .router (.setMaxTvl .l3 1_000_000_000)),
    signed 4 (.deposit (.account 7) .l3 usdc 500_000_000), signed 5 (.vaultCapacity .l3)]

theorem admits_cappedRun : ∀ c ∈ cappedRun, harness.Admits c := by
  intro c hc
  rcases List.mem_append.mp hc with hc | hc
  · exact admits_depositsRun c hc
  · simp only [List.mem_cons, List.not_mem_nil, or_false] at hc
    rcases hc with rfl | rfl | rfl
    · exact ⟨by simp, by simp⟩
    · exact admits_signed _ _
    · exact admits_signed _ _

theorem run_caps_cappedRun :
    let k := replay (Tvl.apply harness) (.of harness harnessWorld)
      (log (World.exec payoutsRule harness.router) harnessWorld cappedRun)
    (k.cap .l3 = 1_000_000_000 ∧ k.total .l3 = 1_000_000_000) ∧
      ∃ v, (run (World.exec payoutsRule harness.router) harnessWorld cappedRun).vaults (harness.vault .l3) =
          some v ∧
        v.Capped (.account 2) 1_000_000_000 ∧ v.totalBalance = 1_000_000_000 := by
  obtain ⟨hstored, _⟩ := run_caps harness_fresh.wired (guards_payouts fun _ => true) admits_cappedRun
  obtain ⟨v, hv⟩ : ∃ v, (run (World.exec payoutsRule harness.router) harnessWorld cappedRun).vaults
      (harness.vault .l3) = some v := ⟨_, rfl⟩
  exact ⟨⟨rfl, rfl⟩, v, hv, hstored.capped .l3 v (by decide) hv, hstored.total .l3 v hv⟩

end Deployment
end YieldLadder
