import YieldLadder.Reconcile.Core
import YieldLadder.Vault.Accounting

/-! # The reconciliation job against a tier vault

A vault's total falls by the whole amount of an exit, and the event of an early exit
carries what is left of it after the fee. So the job's sums run ahead of the vault by
the fees charged: it reports a vault that works as coded exactly when the fees do not
cancel out.
-/
namespace YieldLadder
open Foundation

namespace TierVault

/-- What a call puts on the positions in the assets with `q`, fee or no fee. -/
def moved (q : Address → Prop) [DecidablePred q] (call : VaultCall) : ℤ :=
  match call with
  | .deposit _ asset amount => if q asset then amount else 0
  | .withdraw _ asset amount => if q asset then -amount else 0
  | .earlyExit _ asset amount => if q asset then -amount else 0
  | _ => 0

def feeIn (q : Address → Prop) [DecidablePred q] (v : TierVault) (call : VaultCall) : ℤ :=
  match call with
  | .earlyExit _ asset amount => if q asset then v.exitFee asset amount else 0
  | _ => 0

def ChargesFee (v : TierVault) (c : Invocation) : Prop :=
  (∃ user asset amount, c.2 = .earlyExit user asset amount ∧ v.exitFee asset amount ≠ 0) ∧
    ∃ r, exec v c = .ok r

noncomputable def assetBalance (v : TierVault) (asset : Address) : ℤ :=
  v.balances.sumOver fun user => (user, asset)

variable {q : Address → Prop} [DecidablePred q] {env : Env} {v v' : TierVault} {call : VaultCall}
variable {reply : Reply} {c : Invocation} {r : TierVault × Reply}

theorem Outcome.totalBalance (h : Outcome env v v' call reply) (hv : v.book.Coherent) :
    v'.totalBalance = v.totalBalance + moved (fun _ => True) call := by
  have hexit : ∀ {user asset amount}, amount ≤ v.balance user asset →
      v'.book = v.book.takeOut (user, asset) amount → v'.totalBalance = v.totalBalance + -amount := by
    intro user asset amount hle hbook
    have htotal : v'.totalBalance = _ := congrArg Book.totalPrincipal hbook
    rw [htotal, Book.takeOut_totalPrincipal hv hle]
    exact Int.sub_eq_add_neg
  cases h with
  | deposit user asset amount _ _ hbook => exact congrArg Book.totalPrincipal hbook
  | withdraw user asset amount _ hle _ hbook => exact hexit hle hbook
  | earlyExit user asset amount _ hle _ hbook => exact hexit hle hbook
  | other _ _ hbook _ hd hw he =>
    have htotal : v'.totalBalance = v.totalBalance := congrArg Book.totalPrincipal hbook
    rw [htotal]
    cases call with
    | deposit user asset amount => exact absurd rfl (hd user asset amount)
    | withdraw user asset amount => exact absurd rfl (hw user asset amount)
    | earlyExit user asset amount => exact absurd rfl (he user asset amount)
    | _ => exact (add_zero _).symm

theorem assetBalance_shift {user asset : Address} {x : ℤ} (a : Address)
    (h : ∀ k, v'.balances.getD k 0 = v.balances.getD k 0 + if k = (user, asset) then x else 0) :
    v'.assetBalance a = v.assetBalance a + if asset = a then x else 0 := by
  have hinj : Function.Injective fun u : Address => (u, a) := fun _ _ h => (Prod.mk.inj h).1
  apply Store.sumOver_shift hinj user
  intro u
  rw [h]
  by_cases hu : u = user <;> by_cases ha : asset = a <;> simp [hu, ha, Ne.symm, eq_comm]

theorem Outcome.assetBalance (h : Outcome env v v' call reply) (a : Address) :
    v'.assetBalance a = v.assetBalance a + moved (· = a) call := by
  have hbal := h.balances
  cases h with
  | deposit user asset amount => exact assetBalance_shift a hbal
  | withdraw user asset amount => exact assetBalance_shift a hbal
  | earlyExit user asset amount => exact assetBalance_shift a hbal
  | other _ _ hbook _ hd hw he =>
    have hb : v'.balances = v.balances := congrArg Book.principal hbook
    unfold TierVault.assetBalance
    rw [hb]
    cases call with
    | deposit user asset amount => exact absurd rfl (hd user asset amount)
    | withdraw user asset amount => exact absurd rfl (hw user asset amount)
    | earlyExit user asset amount => exact absurd rfl (he user asset amount)
    | _ => exact (add_zero _).symm

end TierVault

namespace Reconcile
open TierVault (moved feeIn ChargesFee)

/-- One raw contract event as the job reads it; others are skipped. -/
def vaultEvent (name : Address → String) (tier : Tier) : Event → Option VaultEvent
  | .deposit user asset amount => some ⟨tier, name asset, name user, .deposit, amount⟩
  | .withdraw user asset amount => some ⟨tier, name asset, name user, .withdraw, amount⟩
  | .earlyExit user asset amount => some ⟨tier, name asset, name user, .earlyExit, amount⟩
  | _ => none

/-- The events of a log of successful calls, as the job reads them. -/
def vaultEvents (name : Address → String) (tier : Tier) (l : List (TierVault.Invocation × Reply)) :
    List VaultEvent :=
  l.flatMap fun e => e.2.events.filterMap (vaultEvent name tier)

variable {name : Address → String} {t : Tier} {v : TierVault} {env : Env}
variable {call : VaultCall} {reply : Reply} {v' : TierVault}

/-- What the events of one call add up to: what it moved, and the fee. -/
theorem events_sum (q : Address → Prop) [DecidablePred q] {p : VaultEvent → Prop} [DecidablePred p]
    (hp : ∀ asset user kind amount, p ⟨t, name asset, user, kind, amount⟩ ↔ q asset)
    (h : TierVault.Outcome env v v' call reply) :
    ((reply.events.filterMap (vaultEvent name t)).map fun ev => if p ev then ev.delta else 0).sum =
      moved q call + feeIn q v call := by
  cases h with
  | deposit user asset amount => simp [vaultEvent, hp, VaultEvent.delta, moved, feeIn]
  | withdraw user asset amount => simp [vaultEvent, hp, VaultEvent.delta, moved, feeIn]
  | earlyExit user asset amount =>
    by_cases hq : q asset
    · simp [vaultEvent, hp, VaultEvent.delta, moved, feeIn, hq]
      omega
    · simp [vaultEvent, hp, moved, feeIn, hq]
  | other _ _ _ hevents hd hw he =>
    rw [hevents]
    cases call with
    | deposit user asset amount => exact absurd rfl (hd user asset amount)
    | withdraw user asset amount => exact absurd rfl (hw user asset amount)
    | earlyExit user asset amount => exact absurd rfl (he user asset amount)
    | _ => rfl

/-- What the events of a run add up to. -/
theorem vaultEvents_sum (q : Address → Prop) [DecidablePred q] {p : VaultEvent → Prop}
    [DecidablePred p] (hp : ∀ asset user kind amount, p ⟨t, name asset, user, kind, amount⟩ ↔ q asset)
    {cs : List TierVault.Invocation} (hcs : ∀ c ∈ cs, TierVault.IsOperation c.2) :
    ((vaultEvents name t (log TierVault.exec v cs)).map fun ev => if p ev then ev.delta else 0).sum =
      tally TierVault.exec (fun _ c => moved q c.2) v cs +
        tally TierVault.exec (fun v c => feeIn q v c.2) v cs := by
  have hm : Meets TierVault.exec (fun _ c => TierVault.IsOperation c.2) v cs := meets_of_forall hcs
  have hstep : ∀ (v : TierVault) (c : TierVault.Invocation) (r : TierVault × Reply),
      TierVault.IsOperation c.2 → TierVault.exec v c = .ok r →
      ((r.2.events.filterMap (vaultEvent name t)).map fun ev => if p ev then ev.delta else 0).sum =
        moved q c.2 + feeIn q v c.2 :=
    fun v c r hc h => events_sum q hp (TierVault.step_outcome hc h)
  have hlog := log_sum (f := fun e => ((e.2.events.filterMap (vaultEvent name t)).map
    fun ev => if p ev then ev.delta else 0).sum) hstep hm
  rw [← tally_add, ← hlog, vaultEvents]
  generalize log TierVault.exec v cs = l
  induction l with
  | nil => rfl
  | cons e l ih =>
    rw [List.flatMap_cons, List.map_append, List.sum_append, ih, List.map_cons, List.sum_cons]

theorem vaultEvents_mem {l : List (TierVault.Invocation × Reply)} {ev : VaultEvent}
    (h : ev ∈ vaultEvents name t l) : ev.tier = t ∧ ∃ asset, ev.asset = name asset := by
  obtain ⟨e, _, hev⟩ := List.mem_flatMap.mp h
  obtain ⟨raw, _, hraw⟩ := List.mem_filterMap.mp hev
  cases raw <;> cases hraw <;> exact ⟨rfl, _, rfl⟩

/-- The vault's total is what the calls moved. -/
theorem run_totalBalance (hv : TierVault.Initialised t v) {cs : List TierVault.Invocation}
    (hcs : ∀ c ∈ cs, TierVault.IsOperation c.2) :
    (run TierVault.exec v cs).totalBalance =
      tally TierVault.exec (fun _ c => moved (fun _ => True) c.2) v cs := by
  have hm : Meets TierVault.exec (fun _ c => TierVault.IsOperation c.2) v cs := meets_of_forall hcs
  have hbook : v.book = Book.empty := TierVault.initialised_book hv
  have h0 : v.totalBalance = 0 := congrArg Book.totalPrincipal hbook
  have hcoherent : v.book.Coherent := hbook ▸ Book.coherent_empty
  have htally : (run TierVault.exec v cs).totalBalance = v.totalBalance +
      tally TierVault.exec (fun _ c => moved (fun _ => True) c.2) v cs :=
    run_tally (I := fun v => v.book.Coherent)
      (fun v c r hc hv h => ⟨TierVault.step_coherent hc hv h,
        (TierVault.step_outcome hc h).totalBalance hv⟩) hcoherent hm
  rw [htally, h0, zero_add]

/-- The positions in an asset are what the calls moved in it. -/
theorem run_assetBalance (hv : TierVault.Initialised t v) {cs : List TierVault.Invocation}
    (hcs : ∀ c ∈ cs, TierVault.IsOperation c.2) (asset : Address) :
    (run TierVault.exec v cs).assetBalance asset =
      tally TierVault.exec (fun _ c => moved (· = asset) c.2) v cs := by
  have hm : Meets TierVault.exec (fun _ c => TierVault.IsOperation c.2) v cs := meets_of_forall hcs
  have hbalances : v.balances = .empty := congrArg Book.principal (TierVault.initialised_book hv)
  have h0 : v.assetBalance asset = 0 := by
    rw [TierVault.assetBalance, hbalances]
    exact Store.sumOver_empty _
  have htally : (run TierVault.exec v cs).assetBalance asset = v.assetBalance asset +
      tally TierVault.exec (fun _ c => moved (· = asset) c.2) v cs :=
    run_tally (m := (TierVault.assetBalance · asset)) (I := fun _ => True)
      (fun v c r hc _ h => ⟨trivial, (TierVault.step_outcome hc h).assetBalance asset⟩) trivial hm
  rw [htally, h0, zero_add]

theorem tally_fee_eq_zero (q : Address → Prop) [DecidablePred q] {cs : List TierVault.Invocation}
    (hm : Meets TierVault.exec (fun v c => ¬ChargesFee v c) v cs) :
    tally TierVault.exec (fun v c => feeIn q v c.2) v cs = 0 := by
  have htally := run_tally (m := fun _ => 0) (I := fun _ => True)
    (g := fun v c => feeIn q v c.2) (by
      rintro v ⟨env, call⟩ r hno _ h
      refine ⟨trivial, ?_⟩
      cases call with
      | earlyExit user asset amount =>
        have hfee : v.exitFee asset amount = 0 := by
          by_contra hne
          exact hno ⟨⟨user, asset, amount, rfl, hne⟩, r, h⟩
        simp [feeIn, hfee]
      | _ => rfl) trivial hm
  omega

/-- The aggregate check reports what the fees add up to. -/
theorem run_aggregate_nil_iff (hv : TierVault.Initialised t v) {cs : List TierVault.Invocation}
    (hcs : ∀ c ∈ cs, TierVault.IsOperation c.2) :
    reconcileAggregateBalances (vaultEvents name t (log TierVault.exec v cs))
        [⟨t, (run TierVault.exec v cs).totalBalance⟩] = [] ↔
      tally TierVault.exec (fun v c => feeIn (fun _ => True) v c.2) v cs = 0 := by
  rw [aggregate_nil_iff, vaultEvents_sum (fun _ => True) (by simp) hcs, run_totalBalance hv hcs]
  omega

/-- The events under the key of an asset add up to the positions in it and the fees charged in it. -/
theorem run_key_sum (hname : name.Injective) (hv : TierVault.Initialised t v)
    {cs : List TierVault.Invocation} (hcs : ∀ c ∈ cs, TierVault.IsOperation c.2) (asset : Address) :
    ((vaultEvents name t (log TierVault.exec v cs)).map fun ev =>
      if ev.key = t.text ++ "|" ++ name asset then ev.delta else 0).sum =
        (run TierVault.exec v cs).assetBalance asset +
          tally TierVault.exec (fun v c => feeIn (· = asset) v c.2) v cs := by
  have hp : ∀ a user kind amount, (⟨t, name a, user, kind, amount⟩ : VaultEvent).key =
      t.text ++ "|" ++ name asset ↔ a = asset := by
    intro a user kind amount
    rw [VaultEvent.key, String.append_right_inj, hname.eq_iff]
  rw [vaultEvents_sum (· = asset) hp hcs, run_assetBalance hv hcs]

theorem sum_eq_zero_of_key {l : List (TierVault.Invocation × Reply)} {key : String}
    (hkey : ∀ asset, key ≠ t.text ++ "|" ++ name asset) :
    ((vaultEvents name t l).map fun ev => if ev.key = key then ev.delta else 0).sum = 0 := by
  apply List.sum_eq_zero
  intro x hx
  obtain ⟨ev, hev, rfl⟩ := List.mem_map.mp hx
  obtain ⟨htier, asset, hasset⟩ := vaultEvents_mem hev
  refine if_neg fun heq => hkey asset ?_
  rw [← heq, VaultEvent.key, htier, hasset]

theorem run_perAsset_nil_iff (hname : name.Injective) (hv : TierVault.Initialised t v)
    {cs : List TierVault.Invocation} (hcs : ∀ c ∈ cs, TierVault.IsOperation c.2) :
    reconcilePerAssetBalances (vaultEvents name t (log TierVault.exec v cs)) = [] ↔
      ∀ asset, 0 ≤ (run TierVault.exec v cs).assetBalance asset +
        tally TierVault.exec (fun v c => feeIn (· = asset) v c.2) v cs := by
  rw [perAsset_nil_iff]
  constructor
  · intro h asset
    rw [← run_key_sum hname hv hcs asset]
    exact h _
  · intro h key
    by_cases hkey : ∃ asset, key = t.text ++ "|" ++ name asset
    · obtain ⟨asset, rfl⟩ := hkey
      rw [run_key_sum hname hv hcs asset]
      exact h asset
    · rw [sum_eq_zero_of_key (not_exists.mp hkey)]

theorem run_assetBalance_nonneg (hv : TierVault.Initialised t v) {cs : List TierVault.Invocation}
    (hcs : ∀ c ∈ cs, TierVault.IsOperation c.2) (asset : Address) :
    0 ≤ (run TierVault.exec v cs).assetBalance asset := by
  have hcoherent : (run TierVault.exec v cs).book.Coherent := by
    apply TierVault.run_coherent _ hcs
    rw [TierVault.initialised_book hv]
    exact Book.coherent_empty
  exact Store.sumOver_nonneg hcoherent.principal_nonneg

/-- After any run of operations on a vault initialised once: the aggregate check is clean exactly when
the fees charged cancel out, the check of each asset exactly when the positions in it and the fees
charged in it do not add up to less than nothing; and both are clean when no fee was charged. -/
theorem run_reconciled (hname : name.Injective) (hv : TierVault.Initialised t v)
    {cs : List TierVault.Invocation} (hcs : ∀ c ∈ cs, TierVault.IsOperation c.2) :
    (reconcileAggregateBalances (vaultEvents name t (log TierVault.exec v cs))
        [⟨t, (run TierVault.exec v cs).totalBalance⟩] = [] ↔
      tally TierVault.exec (fun v c => feeIn (fun _ => True) v c.2) v cs = 0) ∧
    (reconcilePerAssetBalances (vaultEvents name t (log TierVault.exec v cs)) = [] ↔
      ∀ asset, 0 ≤ (run TierVault.exec v cs).assetBalance asset +
        tally TierVault.exec (fun v c => feeIn (· = asset) v c.2) v cs) ∧
    (Meets TierVault.exec (fun v c => ¬ChargesFee v c) v cs →
      reconcileAggregateBalances (vaultEvents name t (log TierVault.exec v cs))
          [⟨t, (run TierVault.exec v cs).totalBalance⟩] = [] ∧
        reconcilePerAssetBalances (vaultEvents name t (log TierVault.exec v cs)) = []) := by
  have haggregate : reconcileAggregateBalances (vaultEvents name t (log TierVault.exec v cs))
      [⟨t, (run TierVault.exec v cs).totalBalance⟩] = [] ↔
        tally TierVault.exec (fun v c => feeIn (fun _ => True) v c.2) v cs = 0 :=
    run_aggregate_nil_iff hv hcs
  have hperAsset := run_perAsset_nil_iff hname hv hcs
  refine ⟨haggregate, hperAsset, fun hm => ⟨haggregate.mpr (tally_fee_eq_zero _ hm), ?_⟩⟩
  apply hperAsset.mpr
  intro asset
  rw [tally_fee_eq_zero (· = asset) hm, add_zero]
  exact run_assetBalance_nonneg hv hcs asset

def spell : Address → String
  | .account n => String.ofList ('G' :: List.replicate n 'A')
  | .contract n => String.ofList ('C' :: List.replicate n 'A')

theorem spell_injective : spell.Injective := by
  intro a b h
  have hlist := congrArg String.toList h
  cases a <;> cases b <;>
    simp only [spell, String.toList_ofList, List.cons.injEq, List.replicate_inj] at hlist <;> simp_all

/-- A deposit of 50 USDC into VaultL3 and an early exit. -/
def exitRun (amount : ℤ) : List TierVault.Invocation :=
  [(⟨[1], none, 1⟩, .deposit (.account 7) (.account 5) 500_000_000),
   (⟨[1], none, 2⟩, .earlyExit (.account 7) (.account 5) amount)]

theorem exitRun_operation (amount : ℤ) : ∀ c ∈ exitRun amount, TierVault.IsOperation c.2 := by
  intro c hc args
  rcases List.mem_pair.mp hc with rfl | rfl <;> simp

/-- An early exit of 100 stroops is too small to pay a fee. -/
theorem run_reconciled_exitRun :
    reconcileAggregateBalances (vaultEvents spell .l3 (log TierVault.exec TierVault.guarded (exitRun 100)))
        [⟨.l3, (run TierVault.exec TierVault.guarded (exitRun 100)).totalBalance⟩] = [] ∧
      reconcilePerAssetBalances
        (vaultEvents spell .l3 (log TierVault.exec TierVault.guarded (exitRun 100))) = [] :=
  (run_reconciled spell_injective TierVault.guarded_initialised (exitRun_operation 100)).2.2 (by
    refine ⟨?_, ?_, trivial⟩
    · rintro ⟨⟨_, _, _, hcall, _⟩, _⟩
      cases hcall
    · rintro ⟨⟨_, _, _, hcall, hfee⟩, _⟩
      cases hcall
      exact hfee (by decide))

/-- An early exit of 20 USDC pays a fee of 0.1, and the job reports the vault. -/
theorem exitRun_reported :
    TierVault.Initialised .l3 TierVault.guarded ∧
      (∀ c ∈ exitRun 200_000_000, TierVault.IsOperation c.2) ∧
      (run TierVault.exec TierVault.guarded (exitRun 200_000_000)).totalBalance = 300_000_000 ∧
      reconcileAggregateBalances
        (vaultEvents spell .l3 (log TierVault.exec TierVault.guarded (exitRun 200_000_000)))
        [⟨.l3, 300_000_000⟩] ≠ [] := by
  refine ⟨TierVault.guarded_initialised, exitRun_operation _, by decide, ?_⟩
  rw [Ne, aggregate_nil_iff]
  decide

end Reconcile
end YieldLadder
