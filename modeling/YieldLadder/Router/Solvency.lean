import YieldLadder.Foundation.Custody
import YieldLadder.Foundation.Machine
import YieldLadder.Router.Deployment
import YieldLadder.Vault.Exits

/-! # Solvency of the tier vaults

Each vault is the custodian of every asset: it holds tokens and owes each user the
recorded balance. A successful call moves one claim and the holding, and the
surplus changes by a gain that is negative only for an exit of a negative amount
on a position with a balance.
-/
namespace YieldLadder
open Foundation

def World.balanceAt (w : World) (vault user asset : Address) : ℤ :=
  ((w.vaults vault).map (·.balance user asset)).getD 0

def World.feeAt (w : World) (vault asset : Address) (amount : ℤ) : ℤ :=
  ((w.vaults vault).map (·.exitFee asset amount)).getD 0

namespace Deployment

/-- The vault of tier `t` as the custodian of one asset. -/
def custody (D : Deployment) (t : Tier) (asset : Address) (w : World) : Custody Address where
  holding := w.tokens asset (D.vault t)
  claim user := w.balanceAt (D.vault t) user asset
  finite := by
    unfold World.balanceAt
    cases w.vaults (D.vault t) with
    | none => simp
    | some v => exact v.balances.getD_support_finite fun _ _ h => (Prod.mk.inj h).1

/-- How a successful call changes the surplus of the vault of tier `t` in `asset`. -/
def gain (D : Deployment) (t : Tier) (asset : Address) (w : World) : World.Invocation → ℤ
  | (_, .router (.withdraw _ tier a x)) => if tier = t ∧ a = asset then x - max x 0 else 0
  | (_, .router (.earlyExit _ tier a x)) =>
    if tier = t ∧ a = asset then x - max (x - w.feeAt (D.vault t) asset x) 0 else 0
  | (_, .transfer a _ dst x) => if dst = D.vault t ∧ a = asset then x else 0
  | _ => 0

variable {D : Deployment} {rule : TokenRule} {w w' : World} {c : World.Invocation}
variable {r : World × Reply} {env : Env} {tier t : Tier} {call : VaultCall} {v v' : TierVault}
variable {reply : Reply} {user asset : Address}

theorem Ran.balanceAt (h : Ran D env w w' tier call v v' reply) (t : Tier) (user asset : Address) :
    w'.balanceAt (D.vault t) user asset = w.balanceAt (D.vault t) user asset +
      if t = tier then TierVault.credited call (user, asset) else 0 := by
  unfold World.balanceAt
  rw [h.vaults]
  by_cases ht : t = tier
  · subst ht
    rw [Function.update_self, h.found, if_pos rfl]
    exact h.outcome.balances (user, asset)
  · rw [Function.update_of_ne (vault_inj.not.mpr ht), if_neg ht, add_zero]

theorem balanceAt_of_vaults (h : w'.vaults = w.vaults) (vault user asset : Address) :
    w'.balanceAt vault user asset = w.balanceAt vault user asset := by
  unfold World.balanceAt
  rw [h]

theorem move_holding (tokens : Tokens) {a src dst : Address} {x : ℤ} (hsrc : src ≠ D.vault t) :
    tokens.move a src dst x asset (D.vault t) =
      tokens asset (D.vault t) + if dst = D.vault t ∧ a = asset then x else 0 := by
  by_cases ha : a = asset
  · subst ha
    by_cases hd : dst = D.vault t
    · subst hd
      simp [Tokens.move_dst tokens a hsrc]
    · rw [Tokens.move_other tokens a hsrc.symm (Ne.symm hd)]
      simp [hd]
  · simp [Ne.symm ha, ha]

theorem paid_holding (tokens : Tokens) {a : Address} {p : ℤ} (huser : ∀ t, user ≠ D.vault t) :
    paid tokens a (D.vault tier) user p asset (D.vault t) =
      tokens asset (D.vault t) - if tier = t ∧ a = asset then max p 0 else 0 := by
  unfold paid
  split
  · next hp =>
    have hmax : max p 0 = p := max_eq_left hp.le
    by_cases ha : a = asset
    · subst ha
      by_cases ht : tier = t
      · subst ht
        simp [Tokens.move_src tokens a (huser tier).symm, hmax]
      · rw [Tokens.move_other tokens a (vault_inj.not.mpr (Ne.symm ht)) (huser t).symm]
        simp [ht]
    · simp [Ne.symm ha, ha]
  · next hp =>
    have hmax : max p 0 = 0 := max_eq_right (by omega)
    simp [hmax]

/-- A call that credits one user's claim in the vault of `tier` and leaves the tokens in step is
a move of every custodian. -/
theorem Ran.move (h : Ran D env w w' tier call v v' reply) {user a : Address} {x y : ℤ}
    (hcall : ∀ u b, TierVault.credited call (u, b) = if (u, b) = (user, a) then x else 0)
    (ht : w'.tokens asset (D.vault t) =
      w.tokens asset (D.vault t) + if tier = t ∧ a = asset then y else 0) :
    (D.custody t asset w).Move user (if tier = t ∧ a = asset then x else 0)
      (if tier = t ∧ a = asset then y else 0) (D.custody t asset w') where
  holding := ht
  claim u := by
    have hb := h.balanceAt t u asset
    rw [hcall] at hb
    simp only [custody]
    rw [hb]
    by_cases hu : u = user
    · subst hu
      by_cases hc : tier = t ∧ a = asset
      · obtain ⟨rfl, rfl⟩ := hc
        simp
      · have hc' : ¬(t = tier ∧ asset = a) := fun hc' => hc ⟨hc'.1.symm, hc'.2.symm⟩
        by_cases htier : t = tier
        · have ha : asset ≠ a := fun ha => hc' ⟨htier, ha⟩
          simp [hc, ha]
        · simp [hc, htier]
    · simp [hu]

theorem gain_of_quiet {action : World.Action} (hq : Quiet action) :
    D.gain t asset w (env, action) = 0 := by
  cases action with
  | router call =>
    cases call with
    | withdraw user tier a x => exact absurd rfl (hq.withdraw user tier a x)
    | earlyExit user tier a x => exact absurd rfl (hq.earlyExit user tier a x)
    | _ => rfl
  | vault callee call => rfl
  | transfer a src dst x => exact absurd rfl (hq.transfer a src dst x)

/-- Every successful call from outside is a move of every custodian, and its surplus changes by
the gain. -/
theorem exec_move (hw : D.Wired w) (hg : D.Guards rule) (hc : D.Admits c)
    (h : World.exec rule D.router w c = .ok r) (t : Tier) (asset : Address) :
    ∃ user x y, (D.custody t asset w).Move user x y (D.custody t asset r.1) ∧
      y - x = D.gain t asset w c := by
  obtain ⟨heffect, _⟩ := exec_effect hw hg hc h
  have hout := fun a (ha : c.1.Authorized a) => outsider_of_authorized (D := D) hc.caller ha
  obtain ⟨env, action⟩ := c
  cases heffect with
  | quiet action hq hv ht =>
    refine ⟨D.router, 0, 0, .of_eq _ ?_ ?_, (gain_of_quiet hq).symm⟩
    · simp [custody, ht]
    · funext user
      exact balanceAt_of_vaults hv _ _ _
  | transfer a src dst amount hsrc h0 hv ht =>
    refine ⟨D.router, 0, if dst = D.vault t ∧ a = asset then amount else 0, ⟨?_, fun user => ?_⟩,
      sub_zero _⟩
    · simp only [custody, ht]
      exact move_holding _ (hsrc t)
    · simp only [custody, add_zero, balanceAt_of_vaults hv]
      split
      · next hu => rw [hu]
      · rfl
  | keep action hq env' tier call v v' reply hran hbook ht =>
    refine ⟨D.router, 0, 0, .of_eq _ ?_ ?_, (gain_of_quiet hq).symm⟩
    · simp [custody, ht]
    · funext user
      have hb : v'.balances = v.balances := congrArg Book.principal hbook
      simp only [custody, World.balanceAt, hran.vaults]
      by_cases htier : t = tier
      · subst htier
        simp [hran.found, TierVault.balance, hb]
      · rw [Function.update_of_ne (vault_inj.not.mpr htier)]
  | deposit user tier a amount v v' reply huser hran ht =>
    refine ⟨user, _, _, hran.move (y := amount) (fun u b => rfl) ?_, sub_self _⟩
    rw [ht, move_holding _ ((hout user huser).2 t)]
    simp only [vault_inj]
  | withdraw user tier a amount v v' reply _ huser hran ht =>
    refine ⟨user, _, _, hran.move (y := -max amount 0) (fun u b => rfl) ?_, ?_⟩
    · rw [ht, paid_holding _ (hout user huser).2]
      split <;> omega
    · dsimp only [gain]
      split <;> omega
  | earlyExit user tier a amount v v' reply _ huser hran ht =>
    refine ⟨user, _, _, hran.move (y := -max (amount - v.exitFee a amount) 0) (fun u b => rfl) ?_, ?_⟩
    · rw [ht, paid_holding _ (hout user huser).2]
      split <;> omega
    · dsimp only [gain]
      split
      · next hc =>
        obtain ⟨rfl, rfl⟩ := hc
        simp only [World.feeAt, hran.found, Option.map_some, Option.getD_some]
        omega
      · rfl

/-- A router call that reaches the missing lower bound: the exit of a negative amount on a
position with a balance, past every check that the router and the vault make. -/
def Slips (D : Deployment) (w : World) (env : Env) (user : Address) (tier : Tier) (asset : Address)
    (amount : ℤ) (checks : TierVault → Prop) : Prop :=
  amount < 0 ∧ VaultRouter.isPaused w.router = false ∧ env.Authorized user ∧
    ∃ v, w.vaults (D.vault tier) = some v ∧ 0 < v.balance user asset ∧ checks v ∧
      Fits v.book (user, asset) amount

def Inflates (D : Deployment) (w : World) : World.Invocation → Prop
  | (env, .router (.withdraw user tier asset amount)) =>
    D.Slips w env user tier asset amount (·.Matured env.ledger user asset)
  | (env, .router (.earlyExit user tier asset amount)) =>
    D.Slips w env user tier asset amount (·.FeeFitsAt asset amount)
  | _ => False

def IsExit (action : World.Action) : Prop :=
  ∃ user tier asset amount, action = .router (.withdraw user tier asset amount) ∨
    action = .router (.earlyExit user tier asset amount)

def Raises (D : Deployment) (w w' : World) : Prop :=
  ∃ t user asset, w.balanceAt (D.vault t) user asset < w'.balanceAt (D.vault t) user asset

theorem Wired.adminAuthorized (hw : D.Wired w) (hv : w.vaults (D.vault tier) = some v) (env : Env) :
    v.AdminAuthorized (env.calledBy D.router) :=
  ⟨D.router, hw.admin _ _ hv, Env.authorized_calledBy env D.router⟩

/-- An exit of a negative amount that goes through has slipped. -/
theorem exit_slips (e : Exit) {a : Address} {x : ℤ} (hw : D.Wired w)
    (hrun : VaultRouter.isPaused w.router = false) (huser : env.Authorized user)
    (hran : Ran D (env.calledBy D.router) w w' tier (e.call user a x) v v' reply) (hx : x < 0) :
    D.Slips w env user tier a x (·.ExitChecks env.ledger user a x e) := by
  have hcoherent := hw.coherent _ _ hran.found
  have hnonneg : 0 ≤ v.balance user a := hcoherent.principal_nonneg (user, a)
  have hauth := hw.adminAuthorized hran.found env
  obtain ⟨h0, hchecks, hfits⟩ := (TierVault.exit_partial_iff e hcoherent hauth (by omega)).mp ⟨_, hran.step⟩
  exact ⟨hx, hrun, huser, v, hran.found, by omega, hchecks, hfits⟩

/-- An exit whose vault answers nothing positive goes through without a token transfer. -/
theorem payOut_of_step (hw : D.Wired w) (hrun : VaultRouter.isPaused w.router = false)
    (huser : env.Authorized user) (hv : w.vaults (D.vault tier) = some v)
    (hs : v.step (env.calledBy D.router) call = .ok (v', reply)) {p : ℤ}
    (hpay : reply.value = .i128 p) (hp : p ≤ 0) :
    ∃ r, VaultRouter.payOut rule D.router env w user tier asset call = .ok r := by
  simp only [VaultRouter.payOut, VaultRouter.requireNotPaused, World.invoke, bind_eq_ok, failIf_eq_ok,
    Env.requireAuth_eq_ok, expect_eq_ok, Value.asI128_eq_ok, pure_eq_ok]
  exact ⟨_, (), by simp [hrun], (), huser, _, hw.vaultAddr tier, _, ⟨v, hv, _, hs, rfl⟩, p, hpay, w.tokens,
    by rw [VaultRouter.sendPayout, if_neg (not_lt.mpr hp)]; rfl, rfl⟩

theorem gain_nonneg (hw : D.Wired w) (hg : D.Guards rule) (hc : D.Admits c) (hno : ¬D.Inflates w c)
    (h : World.exec rule D.router w c = .ok r) (t : Tier) (asset : Address) :
    0 ≤ D.gain t asset w c := by
  obtain ⟨heffect, _⟩ := exec_effect hw hg hc h
  obtain ⟨env, action⟩ := c
  cases heffect with
  | quiet action hq => exact (gain_of_quiet hq).ge
  | transfer a src dst amount _ h0 =>
    dsimp only [gain]
    split <;> omega
  | keep action hq => exact (gain_of_quiet hq).ge
  | deposit => exact le_rfl
  | withdraw user tier a amount v v' reply hrun huser hran ht =>
    have hpos : 0 ≤ amount := by
      by_contra hneg
      exact hno (exit_slips .withdraw hw hrun huser hran (not_le.mp hneg))
    dsimp only [gain]
    split <;> omega
  | earlyExit user tier a amount v v' reply hrun huser hran ht =>
    have hpos : 0 ≤ amount := by
      by_contra hneg
      exact hno (exit_slips .early hw hrun huser hran (not_le.mp hneg))
    dsimp only [gain]
    split
    · next hc =>
      obtain ⟨rfl, rfl⟩ := hc
      have hmem := TierVault.exitFee_mem v a hpos
      simp only [World.feeAt, hran.found, Option.map_some, Option.getD_some]
      omega
    · exact le_rfl

theorem neg_of_raises {e : Exit} {a : Address} {x : ℤ} (hran : Ran D env w w' tier (e.call user a x) v v' reply)
    (h : D.Raises w w') : x < 0 := by
  obtain ⟨t, u, b, hraise⟩ := h
  rw [hran.balanceAt, TierVault.exit_credited] at hraise
  split at hraise
  · split at hraise <;> omega
  · omega

/-- An exit that slips goes through and raises a balance, since nothing is paid for it. -/
theorem raises_of_slips {e : Exit} {x : ℤ} (hw : D.Wired w)
    (h : D.Slips w env user tier asset x (·.ExitChecks env.ledger user asset x e)) :
    ∃ r, VaultRouter.payOut rule D.router env w user tier asset (e.call user asset x) = .ok r ∧ D.Raises w r.1 := by
  obtain ⟨hx, hrun, huser, v, hv, hpos, hchecks, hfits⟩ := h
  have hop : TierVault.IsOperation (e.call user asset x) := TierVault.exit_operation e
  obtain ⟨⟨v', reply⟩, hs⟩ := (TierVault.exit_partial_iff e (hw.coherent _ _ hv)
    (hw.adminAuthorized hv env) (by omega)).mpr ⟨hpos.ne', hchecks, hfits⟩
  obtain ⟨r, h⟩ : ∃ r, VaultRouter.payOut rule D.router env w user tier asset (e.call user asset x) = .ok r :=
    payOut_of_step hw hrun huser hv hs (TierVault.exit_value hs) (v.exitPayout_nonpos asset e hx.le)
  obtain ⟨_, _, _, _, _, _, hran, _⟩ := payOut_ok hw hop h
  refine ⟨r, h, tier, user, asset, ?_⟩
  rw [hran.balanceAt, if_pos rfl, TierVault.exit_credited, if_pos rfl]
  omega

theorem inflates_of_raises (hw : D.Wired w) (hg : D.Guards rule) (hc : D.Admits c)
    (hexit : IsExit c.2) (h : World.exec rule D.router w c = .ok r) (hraise : D.Raises w r.1) :
    D.Inflates w c := by
  obtain ⟨heffect, _⟩ := exec_effect hw hg hc h
  obtain ⟨env, action⟩ := c
  obtain ⟨user, tier, a, x, rfl | rfl⟩ := hexit
  · cases heffect with
    | withdraw _ _ _ _ v v' reply hrun huser hran ht =>
      exact exit_slips .withdraw hw hrun huser hran (neg_of_raises (e := .withdraw) hran hraise)
    | quiet _ hq => exact absurd rfl (hq.withdraw _ _ _ _)
    | keep _ hq => exact absurd rfl (hq.withdraw _ _ _ _)
  · cases heffect with
    | earlyExit _ _ _ _ v v' reply hrun huser hran ht =>
      exact exit_slips .early hw hrun huser hran (neg_of_raises (e := .early) hran hraise)
    | quiet _ hq => exact absurd rfl (hq.earlyExit _ _ _ _)
    | keep _ hq => exact absurd rfl (hq.earlyExit _ _ _ _)

theorem raises_of_inflates (hw : D.Wired w) (h : D.Inflates w c) :
    ∃ r, World.exec rule D.router w c = .ok r ∧ D.Raises w r.1 := by
  obtain ⟨env, action⟩ := c
  cases action with
  | router call =>
    cases call with
    | withdraw user tier a x => exact raises_of_slips (e := .withdraw) hw h
    | earlyExit user tier a x => exact raises_of_slips (e := .early) hw h
    | _ => exact h.elim
  | _ => exact h.elim

theorem raises_iff_inflates (hw : D.Wired w) (hg : D.Guards rule) (hc : D.Admits c)
    (hexit : IsExit c.2) :
    D.Raises w (next (World.exec rule D.router) w c) ↔ D.Inflates w c := by
  constructor
  · intro hraise
    cases h : World.exec rule D.router w c with
    | ok r => exact inflates_of_raises hw hg hc hexit h (next_ok h ▸ hraise)
    | error e =>
      rw [next_error h] at hraise
      obtain ⟨t, u, b, hlt⟩ := hraise
      exact absurd hlt (lt_irrefl _)
  · intro hin
    obtain ⟨r, h, hraise⟩ : ∃ r, World.exec rule D.router w c = .ok r ∧ D.Raises w r.1 :=
      raises_of_inflates hw hin
    rwa [next_ok h]

theorem fresh_owed (hf : D.Fresh w) (t : Tier) (asset : Address) : (D.custody t asset w).owed = 0 := by
  have hzero : (D.custody t asset w).claim = fun _ => 0 := by
    funext user
    obtain ⟨v, hv⟩ := hf.vault t
    obtain ⟨_, _, hinit, _⟩ := hf.only _ _ hv
    have hb : v.balances = .empty := congrArg Book.principal (TierVault.initialised_book hinit)
    simp [custody, World.balanceAt, hv, TierVault.balance, hb]
  unfold Custody.owed
  rw [hzero, finsum_zero]

theorem fresh_solvent (hf : D.Fresh w) (t : Tier) (asset : Address) :
    (D.custody t asset w).Solvent := by
  unfold Custody.Solvent
  rw [fresh_owed hf]
  exact hf.tokens asset (D.vault t)

/-- In every run from a fresh deployment whose calls never slip, each vault holds at least what it
owes in each asset; and in every state reached, the exits that raise a recorded balance are
exactly those that slip. -/
theorem run_solvent (hf : D.Fresh w) (hg : D.Guards rule) {cs : List World.Invocation}
    (hcs : ∀ c ∈ cs, D.Admits c)
    (hno : Meets (World.exec rule D.router) (fun w c => ¬D.Inflates w c) w cs) :
    (∀ t asset, ∑ᶠ user, (run (World.exec rule D.router) w cs).balanceAt (D.vault t) user asset ≤
      (run (World.exec rule D.router) w cs).tokens asset (D.vault t)) ∧
    ∀ c, D.Admits c → IsExit c.2 →
      (D.Raises (run (World.exec rule D.router) w cs)
        (next (World.exec rule D.router) (run (World.exec rule D.router) w cs) c) ↔
        D.Inflates (run (World.exec rule D.router) w cs) c) := by
  have hm : Meets (World.exec rule D.router) (fun w c => D.Admits c ∧ ¬D.Inflates w c) w cs :=
    meets_and.mpr ⟨meets_of_forall hcs, hno⟩
  have hI : D.Wired w ∧ ∀ t asset, (D.custody t asset w).Solvent := ⟨hf.wired, fresh_solvent hf⟩
  obtain ⟨hw, hs⟩ := run_invariant_of_meets
    (I := fun w => D.Wired w ∧ ∀ t asset, (D.custody t asset w).Solvent) (by
      rintro w c r ⟨hc, hno⟩ ⟨hw, hs⟩ h
      refine ⟨exec_wired hw hg hc h, fun t asset => ?_⟩
      obtain ⟨user, x, y, hmove, hgain⟩ := exec_move hw hg hc h t asset
      have hnonneg := gain_nonneg hw hg hc hno h t asset
      exact hmove.solvent (by omega) (hs t asset)) hI hm
  exact ⟨hs, fun c hc hexit => raises_iff_inflates hw hg hc hexit⟩

/-- A deposit of 1 USDC and a withdrawal of 0.4 USDC. -/
def harnessRun : List World.Invocation :=
  [signed 1 (.deposit (.account 7) .flex usdc 10_000_000),
   signed 2 (.withdraw (.account 7) .flex usdc 4_000_000)]

theorem run_solvent_harness :
    (∀ t asset, ∑ᶠ user, (run (World.exec .host harness.router) harnessWorld harnessRun).balanceAt
        (harness.vault t) user asset ≤
      (run (World.exec .host harness.router) harnessWorld harnessRun).tokens asset
        (harness.vault t)) ∧
    ∀ c, harness.Admits c → IsExit c.2 →
      (harness.Raises (run (World.exec .host harness.router) harnessWorld harnessRun)
        (next (World.exec .host harness.router)
          (run (World.exec .host harness.router) harnessWorld harnessRun) c) ↔
        harness.Inflates (run (World.exec .host harness.router) harnessWorld harnessRun) c) :=
  run_solvent harness_fresh guards_host (by simp [harnessRun, admits_signed])
    (by simp [harnessRun, Meets, Inflates, Slips, signed])

theorem Wired.balanceAt_le (hw : D.Wired w) (t : Tier) (user asset : Address) :
    w.balanceAt (D.vault t) user asset ≤ ∑ᶠ u, w.balanceAt (D.vault t) u asset := by
  obtain ⟨v, hv⟩ := hw.vault t
  have hinj : Function.Injective fun u : Address => ((u, asset) : Key) :=
    fun _ _ h => (Prod.mk.inj h).1
  have hle := Store.getD_le_sumOver hinj (hw.coherent _ _ hv).principal_nonneg user
  have hbal : ∀ u, w.balanceAt (D.vault t) u asset = v.book.principal.getD (u, asset) 0 := by
    intro u
    rw [World.balanceAt, hv]
    rfl
  simp only [hbal]
  exact hle

/-- A deposit of 1 USDC and a withdrawal of -0.5 USDC. -/
def slippingRun : List World.Invocation :=
  [signed 1 (.deposit (.account 7) .flex usdc 10_000_000),
   signed 2 (.withdraw (.account 7) .flex usdc (-5_000_000))]

/-- It leaves 1.5 USDC recorded where 1 USDC is held. -/
theorem harness_insolvent :
    harness.Fresh harnessWorld ∧ (∀ c ∈ slippingRun, harness.Admits c) ∧
      (run (World.exec .host harness.router) harnessWorld slippingRun).tokens usdc
          (harness.vault .flex) <
        ∑ᶠ user, (run (World.exec .host harness.router) harnessWorld slippingRun).balanceAt
          (harness.vault .flex) user usdc := by
  have hcs : ∀ c ∈ slippingRun, harness.Admits c := by simp [slippingRun, admits_signed]
  have hw := run_wired harness_fresh.wired guards_host hcs
  have hbalance : (run (World.exec .host harness.router) harnessWorld slippingRun).balanceAt
      (harness.vault .flex) (.account 7) usdc = 15_000_000 := by decide
  have htokens : (run (World.exec .host harness.router) harnessWorld slippingRun).tokens usdc
      (harness.vault .flex) = 10_000_000 := by decide
  have hle := hw.balanceAt_le .flex (.account 7) usdc
  exact ⟨harness_fresh, hcs, by omega⟩

end Deployment
end YieldLadder
