import YieldLadder.Foundation.Replay
import YieldLadder.Router.Calls

/-! # The router's authority, replayed from the calls it accepted

The charter says who holds which role, whether the router is halted and which assets may be
deposited, as the accepted calls have built it up. The router's storage is always the charter
replayed from its log, so every accepted call was within the charter of its moment: each
administrative call had the role it needs, each deposit was of a listed asset while nothing was
halted, and each view told the charter.
-/
namespace YieldLadder
open Foundation

/-- What `initialise` fixes for good. -/
structure Roles where
  admin : Address
  governance : Address
  guardian : Address
  vault : Tier → Address

structure Charter where
  roles : Option Roles
  halted : Bool
  listed : Set Address

namespace Charter

def blank : Charter := ⟨none, false, ∅⟩

/-- What an accepted call of the router makes of the charter. -/
def after (k : Charter) : VaultRouter.Call → Charter
  | .initialise admin governance guardian vaults initialAssets =>
    ⟨some ⟨admin, governance, guardian, vaults⟩, false, k.listed ∪ {asset | asset ∈ initialAssets}⟩
  | .pause => { k with halted := true }
  | .unpause => { k with halted := false }
  | .addDepositAsset _ asset => { k with listed := insert asset k.listed }
  | .removeDepositAsset _ asset => { k with listed := k.listed \ {asset} }
  | _ => k

/-- The calls, with their answers, that the charter admits. -/
def Within (k : Charter) (env : Env) (value : Value) : VaultRouter.Call → Prop
  | .initialise _ _ _ _ _ => k.roles = none
  | .pause => ∃ r, k.roles = some r ∧ env.Authorized r.guardian
  | .unpause => ∃ r, k.roles = some r ∧ env.Authorized r.guardian
  | .isPaused => value = .bool k.halted
  | .deposit user tier asset amount => (∃ r, k.roles = some r) ∧ k.halted = false ∧ env.Authorized user ∧
      asset ∈ k.listed ∧ VaultRouter.minDeposit tier ≤ amount
  | .withdraw user _ _ _ => (∃ r, k.roles = some r) ∧ k.halted = false ∧ env.Authorized user
  | .earlyExit user _ _ _ => (∃ r, k.roles = some r) ∧ k.halted = false ∧ env.Authorized user
  | .setMaxTvl _ _ => ∃ r, k.roles = some r ∧ env.Authorized r.governance
  | .vaultCapacity _ => ∃ r, k.roles = some r
  | .relock user tier _ => (∃ r, k.roles = some r) ∧ env.Authorized user ∧ tier ≠ .flex
  | .addDepositAsset admin _ => ∃ r, k.roles = some r ∧ r.admin = admin ∧ env.Authorized admin
  | .removeDepositAsset admin _ => ∃ r, k.roles = some r ∧ r.admin = admin ∧ env.Authorized admin
  | .isDepositAssetAllowed asset => ∃ b, value = .bool b ∧ (b = true ↔ asset ∈ k.listed)
  | .position _ _ _ => ∃ r, k.roles = some r
  | .getAdmin => ∃ r, k.roles = some r ∧ value = .address r.admin
  | .getGuardian => ∃ r, k.roles = some r ∧ value = .address r.guardian
  | .getVault tier => ∃ r, k.roles = some r ∧ value = .address (r.vault tier)

def apply (k : Charter) (e : World.Invocation × Reply) : Charter :=
  match e.1.2 with
  | .router call => k.after call
  | _ => k

def permits (k : Charter) (e : World.Invocation × Reply) : Prop :=
  match e.1.2 with
  | .router call => k.Within e.1.1 e.2.value call
  | _ => True

/-- The router's storage holds the charter. The admin stands there twice, for the router and for the
registry of its deposit assets. -/
structure Stored (s : VaultRouter.State) (k : Charter) : Prop where
  roles : s.inst.map (fun i => (⟨i.admin, i.governance, i.guardian, i.vault⟩ : Roles)) = k.roles
  halted : VaultRouter.isPaused s = k.halted
  admin : s.allowlist.admin = k.roles.map Roles.admin
  listed : ∀ asset, s.allowlist.isAssetAllowed asset = true ↔ asset ∈ k.listed

end Charter

namespace Allowlist
variable {env : Env} {l l' : Allowlist} {admin asset : Address}

theorem setAll_allowed (initialAssets : List Address) (s : Store Address Bool) (asset : Address) :
    (initialAssets.foldl (·.set · true) s).getD asset false = true ↔
      s.getD asset false = true ∨ asset ∈ initialAssets := by
  induction initialAssets generalizing s with
  | nil => simp
  | cons a rest ih =>
    rw [List.foldl_cons, ih]
    by_cases h : asset = a
    · subst h
      simp
    · rw [Store.getD_set_of_ne s h]
      simp [h]

theorem addAsset_eq_ok : l.addAsset env admin asset = .ok l' ↔ l.admin = some admin ∧
    env.Authorized admin ∧ l' = { l with assets := l.assets.set asset true } := by
  simp only [addAsset, bind_eq_ok, expect_eq_ok, Env.requireAuth_eq_ok, failIf_eq_ok, pure_eq_ok, ne_eq,
    not_not]
  constructor
  · rintro ⟨_, hsaved, _, hauth, _, rfl, rfl⟩
    exact ⟨hsaved, hauth, rfl⟩
  · rintro ⟨hsaved, hauth, rfl⟩
    exact ⟨admin, hsaved, (), hauth, (), rfl, rfl⟩

theorem removeAsset_eq_ok : l.removeAsset env admin asset = .ok l' ↔ l.admin = some admin ∧
    env.Authorized admin ∧
      l' = if l.assets.get asset = none then l else { l with assets := l.assets.set asset false } := by
  simp only [removeAsset, bind_eq_ok, expect_eq_ok, Env.requireAuth_eq_ok, failIf_eq_ok, pure_eq_ok, ne_eq,
    not_not]
  constructor
  · rintro ⟨_, hsaved, _, hauth, _, rfl, rfl⟩
    exact ⟨hsaved, hauth, rfl⟩
  · rintro ⟨hsaved, hauth, rfl⟩
    exact ⟨admin, hsaved, (), hauth, (), rfl, rfl⟩

theorem addAsset_allowed (h : l.addAsset env admin asset = .ok l') (b : Address) :
    l'.isAssetAllowed b = true ↔ b = asset ∨ l.isAssetAllowed b = true := by
  obtain ⟨_, _, rfl⟩ := addAsset_eq_ok.mp h
  unfold isAssetAllowed
  by_cases hb : b = asset
  · subst hb
    simp
  · simp [hb]

theorem removeAsset_allowed (h : l.removeAsset env admin asset = .ok l') (b : Address) :
    l'.isAssetAllowed b = true ↔ l.isAssetAllowed b = true ∧ b ≠ asset := by
  obtain ⟨_, _, rfl⟩ := removeAsset_eq_ok.mp h
  unfold isAssetAllowed
  split
  · next hnone =>
    refine ⟨fun hall => ⟨hall, ?_⟩, fun hall => hall.1⟩
    rintro rfl
    rw [Store.getD_of_none hnone] at hall
    cases hall
  · by_cases hb : b = asset
    · subst hb
      simp
    · simp [hb]

end Allowlist

namespace VaultRouter
variable {rule : TokenRule} {self : Address} {env : Env} {w : World} {call : Call} {r : World × Reply}
variable {k : Charter}

theorem stored_roles {i : Instance} (hs : Charter.Stored w.router k) (hi : w.router.inst = some i) :
    k.roles = some ⟨i.admin, i.governance, i.guardian, i.vault⟩ := by
  rw [← hs.roles, hi]
  rfl

theorem stored_admin {admin : Address} (hs : Charter.Stored w.router k)
    (h : w.router.allowlist.admin = some admin) : ∃ r, k.roles = some r ∧ r.admin = admin := by
  rw [hs.admin] at h
  exact Option.map_eq_some_iff.mp h

theorem vaultAddr_eq_ok {tier : Tier} {a : Address} :
    vaultAddr w.router tier = .ok a ↔ ∃ i, w.router.inst = some i ∧ i.vault tier = a := by
  simp [vaultAddr, unwrap]

theorem roles_of_vaultAddr {tier : Tier} {a : Address} (hs : Charter.Stored w.router k)
    (h : vaultAddr w.router tier = .ok a) : ∃ r, k.roles = some r ∧ r.vault tier = a := by
  obtain ⟨i, hi, ha⟩ := vaultAddr_eq_ok.mp h
  exact ⟨_, stored_roles hs hi, ha⟩

/-- What a call that forwards nothing does to the storage. -/
theorem initialise_stored {admin governance guardian : Address} {vaults : Tier → Address}
    {initialAssets : List Address} {s' : State} (hs : Charter.Stored w.router k)
    (h : initialise w.router admin governance guardian vaults initialAssets = .ok s') :
    k.roles = none ∧ Charter.Stored s' (k.after (.initialise admin governance guardian vaults initialAssets)) := by
  simp only [initialise, Allowlist.initAllowlist, bind_eq_ok, failIf_eq_ok, pure_eq_ok] at h
  obtain ⟨_, hnone, _, ⟨_, _, rfl⟩, rfl⟩ := h
  have hinst : w.router.inst = none := by simpa using hnone
  refine ⟨?_, ?_, rfl, rfl, ?_⟩
  · rw [← hs.roles, hinst]
    rfl
  · simp only [Charter.after, Option.map_some, Option.some.injEq, Roles.mk.injEq, true_and]
    funext tier
    cases tier <;> rfl
  · intro asset
    have hall := Allowlist.setAll_allowed initialAssets w.router.allowlist.assets asset
    have hlisted := hs.listed asset
    unfold Allowlist.isAssetAllowed at hlisted ⊢
    simp only [Charter.after, hall, hlisted, Set.mem_union, Set.mem_ofPred_eq]

theorem breaker_stored {i : Instance} {active : Bool} (hs : Charter.Stored w.router k)
    (hi : w.router.inst = some i) :
    Charter.Stored { w.router with inst := some { i with paused := active } } { k with halted := active } where
  roles := by
    rw [stored_roles hs hi, Option.map_some, Option.some.injEq, Roles.mk.injEq]
    exact ⟨rfl, rfl, rfl, funext (Instance.vault_paused i active)⟩
  halted := rfl
  admin := hs.admin
  listed := hs.listed

theorem payOut_within {user asset : Address} {tier : Tier} {vaultCall : VaultCall}
    (hs : Charter.Stored w.router k) (h : payOut rule self env w user tier asset vaultCall = .ok r) :
    (∃ roles, k.roles = some roles) ∧ k.halted = false ∧ env.Authorized user := by
  simp only [payOut, requireNotPaused, bind_eq_ok, failIf_eq_ok, Env.requireAuth_eq_ok,
    Bool.not_eq_true] at h
  obtain ⟨_, hrun, _, huser, a, ha, _⟩ := h
  obtain ⟨roles, hroles, _⟩ := roles_of_vaultAddr hs ha
  exact ⟨⟨roles, hroles⟩, hs.halted.symm.trans hrun, huser⟩

theorem forwarded_within {tier : Tier} {vaultCall : VaultCall} (hs : Charter.Stored w.router k)
    (hc : call.forwarded = some (tier, vaultCall)) (h : step rule self env w call = .ok r) :
    k.Within env r.2.value call ∧ Charter.Stored r.1.router (k.after call) := by
  have hsame : r.1.router = w.router := (step_forwarded hc h).2.1
  have hafter : k.after call = k := by
    cases call <;> first | rfl | cases hc
  rw [hsame, hafter]
  refine ⟨?_, hs⟩
  cases call with
  | deposit user t asset amount =>
    simp only [step, deposit, requireNotPaused, bind_eq_ok, failIf_eq_ok, Env.requireAuth_eq_ok,
      Bool.not_eq_true, Bool.not_eq_false, not_lt] at h
    obtain ⟨_, hrun, _, huser, _, hall, _, hmin, a, ha, _⟩ := h
    obtain ⟨roles, hroles, _⟩ := roles_of_vaultAddr hs ha
    exact ⟨⟨roles, hroles⟩, hs.halted.symm.trans hrun, huser, (hs.listed asset).mp hall, hmin⟩
  | withdraw user t asset amount => exact payOut_within hs h
  | earlyExit user t asset amount => exact payOut_within hs h
  | setMaxTvl t newCap =>
    simp only [step, setMaxTvl, unwrap, bind_eq_ok, expect_eq_ok, Env.requireAuth_eq_ok] at h
    obtain ⟨i, hi, _, hauth, _⟩ := h
    exact ⟨_, stored_roles hs hi, hauth⟩
  | relock user t asset =>
    simp only [step, relock, bind_eq_ok, failIf_eq_ok, Env.requireAuth_eq_ok] at h
    obtain ⟨_, huser, _, htier, a, ha, _⟩ := h
    obtain ⟨roles, hroles, _⟩ := roles_of_vaultAddr hs ha
    exact ⟨⟨roles, hroles⟩, huser, htier⟩
  | _ => cases hc

theorem step_within (hs : Charter.Stored w.router k) (h : step rule self env w call = .ok r) :
    k.Within env r.2.value call ∧ Charter.Stored r.1.router (k.after call) := by
  cases call with
  | initialise admin governance guardian vaults initialAssets =>
    simp only [step, bind_eq_ok, pure_eq_ok] at h
    obtain ⟨s', hinit, rfl⟩ := h
    exact initialise_stored hs hinit
  | pause =>
    simp only [step, pause, bind_eq_ok, expect_eq_ok, Env.requireAuth_eq_ok, pure_eq_ok] at h
    obtain ⟨_, ⟨i, hi, _, hauth, rfl⟩, rfl⟩ := h
    exact ⟨⟨_, stored_roles hs hi, hauth⟩, breaker_stored hs hi⟩
  | unpause =>
    simp only [step, unpause, bind_eq_ok, expect_eq_ok, Env.requireAuth_eq_ok, pure_eq_ok] at h
    obtain ⟨_, ⟨i, hi, _, hauth, rfl⟩, rfl⟩ := h
    exact ⟨⟨_, stored_roles hs hi, hauth⟩, breaker_stored hs hi⟩
  | isPaused =>
    obtain rfl := pure_eq_ok.mp h
    exact ⟨congrArg Value.bool hs.halted, hs⟩
  | vaultCapacity tier =>
    simp only [step, vaultCapacity, bind_eq_ok, pure_eq_ok] at h
    obtain ⟨_, ⟨a, ha, _⟩, rfl⟩ := h
    obtain ⟨roles, hroles, _⟩ := roles_of_vaultAddr hs ha
    exact ⟨⟨roles, hroles⟩, hs⟩
  | addDepositAsset admin asset =>
    simp only [step, bind_eq_ok, pure_eq_ok] at h
    obtain ⟨l', hadd, rfl⟩ := h
    obtain ⟨hsaved, hauth, hnew⟩ := Allowlist.addAsset_eq_ok.mp hadd
    obtain ⟨roles, hroles, hadmin⟩ := stored_admin hs hsaved
    refine ⟨⟨roles, hroles, hadmin, hauth⟩, hs.roles, hs.halted, ?_, fun b => ?_⟩
    · rw [hnew]
      exact hs.admin
    · rw [Allowlist.addAsset_allowed hadd, hs.listed]
      exact Set.mem_insert_iff.symm
  | removeDepositAsset admin asset =>
    simp only [step, bind_eq_ok, pure_eq_ok] at h
    obtain ⟨l', hremove, rfl⟩ := h
    obtain ⟨hsaved, hauth, hnew⟩ := Allowlist.removeAsset_eq_ok.mp hremove
    obtain ⟨roles, hroles, hadmin⟩ := stored_admin hs hsaved
    refine ⟨⟨roles, hroles, hadmin, hauth⟩, hs.roles, hs.halted, ?_, fun b => ?_⟩
    · rw [hnew, apply_ite Allowlist.admin, ite_self]
      exact hs.admin
    · rw [Allowlist.removeAsset_allowed hremove, hs.listed]
      exact Iff.rfl
  | isDepositAssetAllowed asset =>
    obtain rfl := pure_eq_ok.mp h
    exact ⟨⟨_, rfl, hs.listed asset⟩, hs⟩
  | position user tier asset =>
    simp only [step, position, bind_eq_ok, pure_eq_ok] at h
    obtain ⟨_, ⟨a, ha, _⟩, rfl⟩ := h
    obtain ⟨roles, hroles, _⟩ := roles_of_vaultAddr hs ha
    exact ⟨⟨roles, hroles⟩, hs⟩
  | getAdmin =>
    simp only [step, unwrap, bind_eq_ok, expect_eq_ok, pure_eq_ok] at h
    obtain ⟨i, hi, rfl⟩ := h
    exact ⟨⟨_, stored_roles hs hi, rfl⟩, hs⟩
  | getGuardian =>
    simp only [step, unwrap, bind_eq_ok, expect_eq_ok, pure_eq_ok] at h
    obtain ⟨i, hi, rfl⟩ := h
    exact ⟨⟨_, stored_roles hs hi, rfl⟩, hs⟩
  | getVault tier =>
    simp only [step, bind_eq_ok, pure_eq_ok] at h
    obtain ⟨a, ha, rfl⟩ := h
    obtain ⟨roles, hroles, hvault⟩ := roles_of_vaultAddr hs ha
    exact ⟨⟨roles, hroles, congrArg Value.address hvault.symm⟩, hs⟩
  | _ => exact forwarded_within hs rfl h

/-- The entry points the router answers from its own storage. -/
def Call.Own : Call → Prop
  | .deposit _ _ _ _ => False
  | .withdraw _ _ _ _ => False
  | .earlyExit _ _ _ _ => False
  | .setMaxTvl _ _ => False
  | .vaultCapacity _ => False
  | .relock _ _ _ => False
  | .position _ _ _ => False
  | _ => True

theorem inst_of_roles {roles : Roles} (hs : Charter.Stored w.router k) (h : k.roles = some roles) :
    ∃ i, w.router.inst = some i ∧ roles = ⟨i.admin, i.governance, i.guardian, i.vault⟩ := by
  rw [← hs.roles] at h
  obtain ⟨i, hi, heq⟩ := Option.map_eq_some_iff.mp h
  exact ⟨i, hi, heq.symm⟩

theorem own_iff (hs : Charter.Stored w.router k) (hown : call.Own) :
    (∃ r, step rule self env w call = .ok r) ↔ ∃ value, k.Within env value call := by
  constructor
  · rintro ⟨r, h⟩
    exact ⟨r.2.value, (step_within hs h).1⟩
  rintro ⟨value, h⟩
  cases call with
  | initialise admin governance guardian vaults initialAssets =>
    have hnone : k.roles = none := h
    have hinst : w.router.inst = none := by
      have hroles := hs.roles
      rw [hnone] at hroles
      exact Option.map_eq_none_iff.mp hroles
    have hadmin : w.router.allowlist.admin = none := by rw [hs.admin, hnone, Option.map_none]
    simp [step, initialise, Allowlist.initAllowlist, hinst, hadmin]
  | pause =>
    obtain ⟨roles, hroles, hauth⟩ := h
    obtain ⟨i, hi, rfl⟩ := inst_of_roles hs hroles
    simp [step, pause, hi, Env.requireAuth, failIf_of_not (not_not.mpr hauth)]
  | unpause =>
    obtain ⟨roles, hroles, hauth⟩ := h
    obtain ⟨i, hi, rfl⟩ := inst_of_roles hs hroles
    simp [step, unpause, hi, Env.requireAuth, failIf_of_not (not_not.mpr hauth)]
  | addDepositAsset admin asset =>
    obtain ⟨roles, hroles, rfl, hauth⟩ := h
    have hadmin : w.router.allowlist.admin = some roles.admin := by rw [hs.admin, hroles, Option.map_some]
    simp [step, Allowlist.addAsset_eq_ok, hadmin, hauth]
  | removeDepositAsset admin asset =>
    obtain ⟨roles, hroles, rfl, hauth⟩ := h
    have hadmin : w.router.allowlist.admin = some roles.admin := by rw [hs.admin, hroles, Option.map_some]
    simp [step, Allowlist.removeAsset_eq_ok, hadmin, hauth]
  | isPaused => exact ⟨_, rfl⟩
  | isDepositAssetAllowed asset => exact ⟨_, rfl⟩
  | getAdmin =>
    obtain ⟨roles, hroles, _⟩ := h
    obtain ⟨i, hi, _⟩ := inst_of_roles hs hroles
    simp [step, unwrap, hi]
  | getGuardian =>
    obtain ⟨roles, hroles, _⟩ := h
    obtain ⟨i, hi, _⟩ := inst_of_roles hs hroles
    simp [step, unwrap, hi]
  | getVault tier =>
    obtain ⟨roles, hroles, _⟩ := h
    obtain ⟨i, hi, _⟩ := inst_of_roles hs hroles
    simp [step, vaultAddr, unwrap, hi]
  | _ => exact hown.elim

end VaultRouter

namespace World
variable {rule : TokenRule} {self : Address} {w : World} {cs : List Invocation} {k : Charter}

theorem exec_within {c : Invocation} {r : World × Reply} (hs : Charter.Stored w.router k)
    (h : exec rule self w c = .ok r) :
    k.permits (c, r.2) ∧ Charter.Stored r.1.router (k.apply (c, r.2)) := by
  obtain ⟨env, action⟩ := c
  cases action with
  | router call => exact VaultRouter.step_within hs h
  | vault callee call =>
    simp only [exec, invoke, bind_eq_ok, pure_eq_ok] at h
    obtain ⟨_, _, _, _, rfl⟩ := h
    exact ⟨trivial, hs⟩
  | transfer asset src dst amount =>
    simp only [exec, bind_eq_ok, pure_eq_ok] at h
    obtain ⟨_, _, rfl⟩ := h
    exact ⟨trivial, hs⟩

theorem stored_blank (hw : w.router = .empty) : Charter.Stored w.router .blank := by
  rw [hw]
  refine ⟨rfl, rfl, rfl, fun asset => ?_⟩
  simp [VaultRouter.State.empty, Allowlist.empty, Allowlist.isAssetAllowed, Charter.blank]

/-- From the router's deployment on, in whatever world it is called and by whomever: its storage is the
charter of the calls it has accepted, each of them was within the charter of the calls before it, and a
call the router answers itself is accepted exactly when it is within the charter. -/
theorem run_charter (hw : w.router = .empty) (cs : List Invocation) :
    let k := replay Charter.apply .blank (log (exec rule self) w cs)
    Charter.Stored (run (exec rule self) w cs).router k ∧
      Permitted Charter.apply Charter.permits .blank (log (exec rule self) w cs) ∧
      ∀ env call, call.Own →
        ((∃ r, exec rule self (run (exec rule self) w cs) (env, .router call) = .ok r) ↔
          ∃ value, k.Within env value call) := by
  intro k
  have hall : Meets (exec rule self) (fun _ _ => True) w cs :=
    meets_of_forall (P := fun _ => True) fun _ _ => trivial
  have hstep : ∀ w k c r, True → Charter.Stored w.router k → exec rule self w c = .ok r →
      Charter.permits k (c, r.2) ∧ Charter.Stored r.1.router (Charter.apply k (c, r.2)) :=
    fun _ _ _ _ _ hs h => exec_within hs h
  have hrun := run_replay (R := fun w k => Charter.Stored w.router k) hstep (stored_blank hw) hall
  exact ⟨hrun.1, hrun.2, fun env call hown => VaultRouter.own_iff hrun.1 hown⟩

def bare : World := ⟨.empty, fun _ => none, fun _ _ => 0⟩

/-- The first admin lists contract 5 only; account 2, the guardian, tries to list contract 6. -/
def listing : List Invocation :=
  [(⟨[9], none, 1⟩, .router (.initialise (.account 1) (.account 3) (.account 2) (fun _ => .contract 4)
      [.contract 5])),
   (⟨[2], none, 2⟩, .router (.addDepositAsset (.account 2) (.contract 6))),
   (⟨[1], none, 3⟩, .router (.removeDepositAsset (.account 1) (.contract 5))),
   (⟨[2], none, 4⟩, .router .pause)]

theorem run_charter_listing :
    let k := replay Charter.apply .blank (log (exec .host (.contract 0)) bare listing)
    Charter.Stored (run (exec .host (.contract 0)) bare listing).router k ∧
      Permitted Charter.apply Charter.permits .blank (log (exec .host (.contract 0)) bare listing) ∧
      ∀ env call, call.Own →
        ((∃ r, exec .host (.contract 0) (run (exec .host (.contract 0)) bare listing) (env, .router call) = .ok r) ↔
          ∃ value, k.Within env value call) :=
  run_charter rfl listing

end World
end YieldLadder
