import YieldLadder.Foundation.Dict
import YieldLadder.Vault.Tier

/-! # The reconciliation job

The job adds up the events of the tier vaults under the keys `tier|asset` and
reports every sum that is negative, and every tier whose sums do not add up to the
`total_balance()` of its vault. Sums are kept in maps that iterate in the order of
insertion, and a key is taken apart again at its separator.
-/
namespace YieldLadder
open Foundation

/-- The tier as the scripts write it. -/
def Tier.text : Tier → String
  | .flex => "Flex"
  | .l3 => "L3"
  | .l6 => "L6"
  | .l12 => "L12"

theorem Tier.text_inj {t t' : Tier} : t.text = t'.text ↔ t = t' := by
  cases t <;> cases t' <;> decide

namespace Reconcile

inductive Kind
  | deposit
  | withdraw
  | earlyExit
  deriving DecidableEq, Repr

structure VaultEvent where
  tier : Tier
  asset : String
  user : String
  kind : Kind
  amount : ℤ
  deriving DecidableEq, Repr

structure VaultTotals where
  tier : Tier
  totalBalance : ℤ
  deriving DecidableEq, Repr

inductive MismatchKind
  | negativeAssetBalance
  | aggregateBalance
  | harvestSplit
  deriving DecidableEq, Repr

structure Mismatch where
  kind : MismatchKind
  tier : Option String
  asset : Option String
  user : Option String
  expected : String
  actual : String
  detail : String
  deriving DecidableEq, Repr

def VaultEvent.key (ev : VaultEvent) : String := ev.tier.text ++ "|" ++ ev.asset

def VaultEvent.delta (ev : VaultEvent) : ℤ := if ev.kind = .deposit then ev.amount else -ev.amount

def computeAssetBalances (events : List VaultEvent) : Dict String ℤ :=
  Dict.accumulate VaultEvent.key VaultEvent.delta events

/-- `key.split('|')`. -/
def split (key : String) : List String := (key.toList.splitOn '|').map String.ofList

def shown (part : Option String) : String := part.getD "undefined"

def reconcilePerAssetBalances (events : List VaultEvent) : List Mismatch :=
  (computeAssetBalances events).entries.filterMap fun e =>
    if e.2 < 0 then
      let tier := (split e.1)[0]?
      let asset := (split e.1)[1]?
      some {
        kind := .negativeAssetBalance
        tier
        asset
        user := none
        expected := ">= 0"
        actual := toString e.2
        detail := "Computed balance for " ++ shown tier ++ "/" ++ shown asset ++
          " went negative — withdrawals exceed recorded deposits." }
    else none

def byTier (events : List VaultEvent) : Dict (Option String) ℤ :=
  Dict.accumulate (fun e => (split e.1)[0]?) Prod.snd (computeAssetBalances events).entries

def reconcileAggregateBalances (events : List VaultEvent) (vaultTotals : List VaultTotals) :
    List Mismatch :=
  vaultTotals.filterMap fun v =>
    let computed := ((byTier events).get (some v.tier.text)).getD 0
    if computed ≠ v.totalBalance then
      some {
        kind := .aggregateBalance
        tier := some v.tier.text
        asset := none
        user := none
        expected := toString v.totalBalance
        actual := toString computed
        detail := v.tier.text ++ " vault total_balance() is " ++ toString v.totalBalance ++
          " but summed deposit/withdraw/early_exit events give " ++ toString computed ++ "." }
    else none

variable {events : List VaultEvent} {ev : VaultEvent} {t : Tier}

theorem bar_not_mem_text (t : Tier) : ∀ c ∈ t.text.toList, (c == '|') = false := by
  cases t <;> simp [Tier.text]

theorem split_key (ev : VaultEvent) : (split ev.key)[0]? = some ev.tier.text := by
  have hkey : ev.key.toList = ev.tier.text.toList ++ '|' :: ev.asset.toList := by
    simp [VaultEvent.key, String.toList_append]
  unfold split
  rw [hkey, List.splitOn, List.splitOnP_append_cons_of_forall_mem (bar_not_mem_text ev.tier) '|' rfl]
  simp

theorem byTier_get (events : List VaultEvent) (t : Tier) :
    ((byTier events).get (some t.text)).getD 0 =
      (events.map fun ev => if ev.tier = t then ev.delta else 0).sum := by
  have hsum : (((computeAssetBalances events).entries).map fun e =>
      if (split e.1)[0]? = some t.text then e.2 else 0).sum =
        (computeAssetBalances events).total fun k => (split k)[0]? = some t.text := by
    unfold Dict.total
    generalize (computeAssetBalances events).entries = l
    induction l with
    | nil => rfl
    | cons e l ih => by_cases he : (split e.1)[0]? = some t.text <;> simp [he, ih]
  rw [byTier, Dict.getD_accumulate, hsum, computeAssetBalances, Dict.total_accumulate]
  congr 1
  apply List.map_congr_left
  intro ev _
  simp only [split_key, Option.some.injEq, Tier.text_inj]

theorem aggregate_nil_iff {total : ℤ} : reconcileAggregateBalances events [⟨t, total⟩] = [] ↔
    (events.map fun ev => if ev.tier = t then ev.delta else 0).sum = total := by
  unfold reconcileAggregateBalances
  rw [← byTier_get]
  simp

/-- No asset is flagged exactly when no key's events add up to less than nothing. -/
theorem perAsset_nil_iff : reconcilePerAssetBalances events = [] ↔
    ∀ key, 0 ≤ (events.map fun ev => if ev.key = key then ev.delta else 0).sum := by
  have hget : ∀ key, (events.map fun ev => if ev.key = key then ev.delta else 0).sum =
      ((computeAssetBalances events).get key).getD 0 := fun key => (Dict.getD_accumulate events key).symm
  have hentries : reconcilePerAssetBalances events = [] ↔
      ∀ e ∈ (computeAssetBalances events).entries, 0 ≤ e.2 := by
    simp [reconcilePerAssetBalances]
  rw [hentries]
  constructor
  · intro h key
    rw [hget]
    cases hkey : (computeAssetBalances events).get key with
    | none => simp
    | some x => exact h (key, x) (Dict.get_eq_some.mp hkey)
  · rintro h ⟨key, x⟩ he
    have hkey := h key
    rw [hget, Dict.get_eq_some.mpr he] at hkey
    exact hkey

end Reconcile
end YieldLadder
