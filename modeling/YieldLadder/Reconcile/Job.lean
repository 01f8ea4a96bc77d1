import YieldLadder.Reconcile.Harvests
import YieldLadder.Router.Caps
import YieldLadder.Router.Exports

/-! # The run of the reconciliation job

The job asks an RPC server for the events of each vault in a window of ledgers and for its total, then
for every account in those events for the position that the router shows. Each request is answered
from whatever has been executed by then, or fails. The scripts write a tier as a string, which is not how
the router takes one, so a run that has an account to ask about ends with an error.
-/
namespace YieldLadder.Reconcile
open Foundation

structure PositionPair where
  tier : Tier
  asset : String
  user : String
  sdkBalance : ℤ
  chainBalance : ℤ

/-- A mismatch of the kind `sdk_vs_chain_position`. -/
structure PositionMismatch where
  tier : Tier
  asset : String
  user : String
  expected : String
  actual : String
  detail : String

def reconcileSdkVsChain (pairs : List PositionPair) : List PositionMismatch :=
  pairs.filterMap fun p =>
    if p.sdkBalance ≠ p.chainBalance then
      some {
        tier := p.tier
        asset := p.asset
        user := p.user
        expected := toString p.chainBalance
        actual := toString p.sdkBalance
        detail := p.user ++ "'s SDK-reported " ++ p.tier.text ++ "/" ++ p.asset ++ " balance (" ++
          toString p.sdkBalance ++ ") disagrees with the tier vault's own balance() (" ++
          toString p.chainBalance ++ ")." }
    else none

/-- The mismatches of a report, in their order. -/
abbrev Report := List (Mismatch ⊕ PositionMismatch)

def runReconciliation (events : List VaultEvent) (vaultTotals : List VaultTotals) (harvests : List HarvestRecord)
    (positions : List PositionPair) : Report :=
  (reconcilePerAssetBalances events).map .inl ++ (reconcileAggregateBalances events vaultTotals).map .inl ++
    (reconcileHarvestSplits harvests).map .inl ++ (reconcileSdkVsChain positions).map .inr

/-- The conversion of the scripts, which pass strings: what looks like an account is an address, any other text
a string. -/
def toScVal (parse : String → Option Address) (text : String) : Except String ScVal :=
  if text.startsWith "G" ∧ text.length = 56 then do
    let a ← expect ("Unsupported address type: " ++ text) (parse text)
    pure (.address a)
  else pure (.string text)

/-- What the scripts ask of the server. -/
inductive Request
  | events (tier : Tier)
  | totalBalance (tier : Tier)
  | maxTvl (tier : Tier)
  | remainingCapacity (tier : Tier)
  | position (tier : Tier) (user : String)
  | balance (tier : Tier) (user : String)
  deriving DecidableEq, Repr

/-- The server: the calls executed by the time it answers a request, unless the request fails. -/
structure Server where
  latestLedger : Except String ℕ
  executed : Request → Except String (List World.Invocation)
  /-- The harvests of the harvester contract with their ledgers and transactions. -/
  harvests : Except String (List (ℕ × String × Harvester.Event))

/-- What the command line and the environment give. -/
structure Settings where
  fromLedger : Option ℤ
  users : List String
  usdcContractId : String

/-- About a day of ledgers, unless the command line says from where. -/
def Settings.startLedger (settings : Settings) (latest : ℕ) : ℤ := settings.fromLedger.getD (latest - 17_280)

def TIERS : List Tier := [.flex, .l3, .l6, .l12]

section Reads
variable (D : Deployment) (rule : TokenRule) (w : World) (name : Address → String) (parse : String → Option Address)
variable (server : Server)

def stateAfter (cs : List World.Invocation) : World := run (World.exec rule D.router) w cs

/-- The events of one vault with their ledgers; the vault that a call runs emits them. -/
def rawEvents (tier : Tier) (cs : List World.Invocation) : List (ℕ × Event) :=
  (log (World.exec rule D.router) w cs).flatMap fun e =>
    if (D.called e.1.2).map Prod.fst = some tier then e.2.events.map (e.1.1.ledger, ·) else []

/-- The server gives the first 200 events from the start ledger. -/
def getVaultEvents (tier : Tier) (startLedger : ℤ) : Except String (List VaultEvent) := do
  let cs ← server.executed (.events tier)
  let response := ((rawEvents D rule w tier cs).filter fun e => startLedger ≤ e.1).take 200
  pure (response.filterMap fun e => vaultEvent name tier e.2)

def getHarvestEvents (startLedger : ℤ) : Except String (List HarvestRecord) := do
  let harvests ← server.harvests
  let response := (harvests.filter fun e => startLedger ≤ e.1).take 200
  pure (response.map fun e => ⟨e.1, e.2.1, e.2.2.harvested, e.2.2.bounty, e.2.2.remainder⟩)

/-- An unsigned call of a read-only export, as the server simulates it. -/
def simulate (w : World) (contract : Address) (method : String) (args : List ScVal) : Option Value :=
  if contract = D.router then do
    let call ← VaultRouter.decode method args
    let r ← (VaultRouter.step rule D.router ⟨[], none, 0⟩ w call).toOption
    pure r.2.value
  else do
    let q ← TierVault.decode method args
    (World.ask ⟨[], none, 0⟩ w contract q).toOption

def readContractValue (request : Request) (contract : Address) (method : String) (args : List String) :
    Except String ScVal := do
  let cs ← server.executed request
  let scArgs ← args.mapM (toScVal parse)
  let value ← expect ("simulate " ++ name contract ++ "." ++ method ++ " failed")
    (simulate D rule (stateAfter D rule w cs) contract method scArgs)
  pure (.ofValue value)

def toBigInt : Option ScVal → Except String ℤ
  | some (.i128 x) => pure x
  | some (.u32 n) => pure n
  | _ => throw "Cannot convert to a BigInt"

def readTier (startLedger : ℤ) (tier : Tier) : Except String (List VaultEvent × VaultTotals) := do
  let events ← getVaultEvents D rule w name server tier startLedger
  let totalBalance ← readContractValue D rule w name parse server (.totalBalance tier) (D.vault tier)
    "total_balance" []
  let totalBalance ← toBigInt (some totalBalance)
  pure (events, ⟨tier, totalBalance⟩)

/-- The position that the router shows beside the one in the vault's storage. -/
def readPosition (asset : String) (tier : Tier) (user : String) : Except String PositionPair := do
  let routerPosition ← readContractValue D rule w name parse server (.position tier user) D.router "position"
    [user, tier.text, asset]
  let chainBalance ← readContractValue D rule w name parse server (.balance tier user) (D.vault tier) "balance"
    [user, asset]
  let sdkBalance ← toBigInt (some ((routerPosition.field "principal").getD (.i128 0)))
  let chainBalance ← toBigInt (some chainBalance)
  pure ⟨tier, asset, user, sdkBalance, chainBalance⟩

/-- The job; an error ends the process with status 1, and so does a report that is not empty. -/
def job (settings : Settings) : Except String Report := do
  let latest ← server.latestLedger
  let startLedger := settings.startLedger latest
  let tiers ← TIERS.mapM (readTier D rule w name parse server startLedger)
  let allEvents := tiers.flatMap Prod.fst
  let harvests ← getHarvestEvents server startLedger
  let users := if settings.users = [] then (allEvents.map VaultEvent.user).eraseDups else settings.users
  let positions ← TIERS.mapM fun tier =>
    users.mapM (readPosition D rule w name parse server settings.usdcContractId tier)
  pure (runReconciliation allEvents (tiers.map Prod.snd) harvests positions.flatten)

def totalRead (tier : Tier) : ℤ :=
  match server.executed (.totalBalance tier) with
  | .ok cs => (((stateAfter D rule w cs).vaults (D.vault tier)).map TierVault.totalBalance).getD 0
  | .error _ => 0

/-- There is no account to ask about, on the command line or in the events, and what else the job asks is
answered. -/
def Unattended (settings : Settings) : Prop :=
  ∃ latest records, server.latestLedger = .ok latest ∧ settings.users = [] ∧
    (∀ tier, getVaultEvents D rule w name server tier (settings.startLedger latest) = .ok [] ∧
      ∃ cs, server.executed (.totalBalance tier) = .ok cs) ∧
    getHarvestEvents server (settings.startLedger latest) = .ok records

end Reads

variable {D : Deployment} {rule : TokenRule} {w : World} {name : Address → String} {parse : String → Option Address}
variable {server : Server} {settings : Settings} {tier : Tier} {user asset : String} {startLedger : ℤ}
variable {report : Report} {records : List HarvestRecord}

theorem mem_TIERS (tier : Tier) : tier ∈ TIERS := by
  cases tier <;> decide

/-- No export of the router takes a tier as a string. -/
theorem simulate_position (w : World) (user asset : ScVal) :
    simulate D rule w D.router "position" [user, .string tier.text, asset] = none := by
  have hargs : VaultRouter.positionArgs.decode [user, .string tier.text, asset] = none := by
    cases user <;> rfl
  have hexport : VaultRouter.exports.lookup "position" = some fun args =>
      (VaultRouter.positionArgs.decode args).map fun a => .position a.1 a.2.1 a.2.2.1 := rfl
  rw [simulate, if_pos rfl, VaultRouter.decode, hexport, Option.bind_some]
  simp only [hargs, Option.map_none]
  rfl

theorem toScVal_tier (tier : Tier) : toScVal parse tier.text = .ok (.string tier.text) := by
  have hlength : tier.text.length ≠ 56 := by
    cases tier <;> decide
  exact if_neg fun h => hlength h.2

theorem readPosition_ne_ok (pair : PositionPair) :
    readPosition D rule w name parse server asset tier user ≠ .ok pair := by
  intro h
  simp only [readPosition, readContractValue, bind_eq_ok, expect_eq_ok, List.mapM_cons, List.mapM_nil,
    toScVal_tier, Except.ok.injEq, pure_eq_ok] at h
  obtain ⟨_, ⟨cs, _, _, ⟨user', _, _, ⟨_, rfl, _, ⟨asset', _, _, rfl, rfl⟩, rfl⟩, rfl⟩,
    value, hvalue, _⟩, _⟩ := h
  cases (simulate_position _ user' asset').symm.trans hvalue

theorem readPositions_eq_ok {users : List String} {positions : List (List PositionPair)} :
    (TIERS.mapM fun tier => users.mapM (readPosition D rule w name parse server asset tier)) = .ok positions ↔
      users = [] ∧ positions = TIERS.map fun _ => [] := by
  rw [mapM_eq_ok_map (P := fun _ => users = []) fun _ _ => mapM_eq_ok_of_never fun _ => readPosition_ne_ok]
  exact and_congr_left fun _ => ⟨fun h => h .flex (mem_TIERS .flex), fun h _ _ => h⟩

theorem wired_of_executed (hf : D.Fresh w) (hg : D.Guards rule) {cs : List World.Invocation}
    (hcs : ∀ c ∈ cs, D.Admits c) : D.Wired (stateAfter D rule w cs) :=
  Deployment.run_wired hf.wired hg hcs

/-- The vaults of a wired deployment answer for their totals. -/
theorem readContractValue_total (hw : ∀ cs, server.executed (.totalBalance tier) = .ok cs →
    D.Wired (stateAfter D rule w cs)) {value : ScVal} :
    readContractValue D rule w name parse server (.totalBalance tier) (D.vault tier) "total_balance" [] =
        .ok value ↔
      (∃ cs, server.executed (.totalBalance tier) = .ok cs) ∧ value = .i128 (totalRead D rule w server tier) := by
  cases hcs : server.executed (.totalBalance tier) with
  | error e =>
    simp [readContractValue, hcs]
  | ok cs =>
    obtain ⟨v, hv⟩ := (hw cs hcs).vault tier
    have hanswer : World.ask ⟨[], none, 0⟩ (stateAfter D rule w cs) (D.vault tier) .totalBalance =
        .ok (.i128 v.totalBalance) := Deployment.ask_eq hv (TierVault.step_totalBalance _ v)
    have hsimulate : simulate D rule (stateAfter D rule w cs) (D.vault tier) "total_balance" [] =
        some (.i128 v.totalBalance) := by
      rw [simulate, if_neg (D.vault_ne_router tier)]
      exact congrArg Except.toOption hanswer
    simp [readContractValue, hcs, hsimulate, totalRead, hv, ScVal.ofValue, eq_comm]

theorem readTier_eq_ok (hw : ∀ cs, server.executed (.totalBalance tier) = .ok cs →
    D.Wired (stateAfter D rule w cs)) {r : List VaultEvent × VaultTotals} :
    readTier D rule w name parse server startLedger tier = .ok r ↔
      ((∃ events, getVaultEvents D rule w name server tier startLedger = .ok events) ∧
        ∃ cs, server.executed (.totalBalance tier) = .ok cs) ∧
      r = ((getVaultEvents D rule w name server tier startLedger).toOption.getD [],
        ⟨tier, totalRead D rule w server tier⟩) := by
  simp only [readTier, bind_eq_ok, readContractValue_total hw, pure_eq_ok]
  constructor
  · rintro ⟨events, hevents, _, ⟨hcs, rfl⟩, _, htotal, rfl⟩
    cases htotal
    rw [hevents]
    exact ⟨⟨⟨events, rfl⟩, hcs⟩, rfl⟩
  · rintro ⟨⟨⟨events, hevents⟩, hcs⟩, rfl⟩
    rw [hevents]
    exact ⟨events, rfl, _, ⟨hcs, rfl⟩, _, rfl, rfl⟩

/-- The reads of all tiers, when there is nothing in the window. -/
theorem readTiers_eq_ok (hw : ∀ tier cs, server.executed (.totalBalance tier) = .ok cs →
    D.Wired (stateAfter D rule w cs)) {tiers : List (List VaultEvent × VaultTotals)} :
    TIERS.mapM (readTier D rule w name parse server startLedger) = .ok tiers ∧ tiers.flatMap Prod.fst = [] ↔
      (∀ tier, getVaultEvents D rule w name server tier startLedger = .ok [] ∧
        ∃ cs, server.executed (.totalBalance tier) = .ok cs) ∧
      tiers = TIERS.map fun tier => ([], ⟨tier, totalRead D rule w server tier⟩) := by
  rw [mapM_eq_ok_map fun tier _ => readTier_eq_ok (hw tier)]
  constructor
  · rintro ⟨⟨hread, rfl⟩, hnone⟩
    have hempty : ∀ tier, getVaultEvents D rule w name server tier startLedger = .ok [] := by
      intro tier
      obtain ⟨⟨events, hevents⟩, _⟩ := hread tier (mem_TIERS tier)
      rw [List.flatMap_eq_nil_iff] at hnone
      have hnil := hnone _ (List.mem_map_of_mem (mem_TIERS tier))
      rw [hevents] at hnil
      obtain rfl : events = [] := hnil
      exact hevents
    refine ⟨fun tier => ⟨hempty tier, (hread tier (mem_TIERS tier)).2⟩, ?_⟩
    simp only [hempty]
    rfl
  · rintro ⟨hread, rfl⟩
    refine ⟨⟨fun tier _ => ⟨⟨[], (hread tier).1⟩, (hread tier).2⟩, ?_⟩, ?_⟩
    · simp only [hread]
      rfl
    · simp

theorem users_eq_nil {users : List String} {events : List VaultEvent} :
    (if users = [] then (events.map VaultEvent.user).eraseDups else users) = [] ↔ users = [] ∧ events = [] := by
  cases users with
  | nil => cases events <;> simp [List.eraseDups_cons]
  | cons user users => simp

def reportOf (total : Tier → ℤ) (records : List HarvestRecord) : Report :=
  runReconciliation [] (TIERS.map fun tier => ⟨tier, total tier⟩) records []

/-- The runs that end with a report, and the report. -/
theorem job_eq_ok (hw : ∀ tier cs, server.executed (.totalBalance tier) = .ok cs →
    D.Wired (stateAfter D rule w cs)) :
    job D rule w name parse server settings = .ok report ↔
      ∃ latest records, server.latestLedger = .ok latest ∧ settings.users = [] ∧
        (∀ tier, getVaultEvents D rule w name server tier (settings.startLedger latest) = .ok [] ∧
          ∃ cs, server.executed (.totalBalance tier) = .ok cs) ∧
        getHarvestEvents server (settings.startLedger latest) = .ok records ∧
        report = reportOf (totalRead D rule w server) records := by
  simp only [job, bind_eq_ok, readPositions_eq_ok, users_eq_nil, pure_eq_ok]
  constructor
  · rintro ⟨latest, hlatest, tiers, htiers, records, hrecords, _, ⟨⟨husers, hnone⟩, rfl⟩, rfl⟩
    obtain ⟨hread, rfl⟩ := (readTiers_eq_ok hw).mp ⟨htiers, hnone⟩
    rw [hnone]
    exact ⟨latest, records, hlatest, husers, hread, hrecords, rfl⟩
  · rintro ⟨latest, records, hlatest, husers, hread, hrecords, rfl⟩
    obtain ⟨htiers, hnone⟩ := (readTiers_eq_ok hw).mpr ⟨hread, rfl⟩
    refine ⟨latest, hlatest, _, htiers, records, hrecords, _, ⟨⟨husers, hnone⟩, rfl⟩, ?_⟩
    rw [hnone]
    rfl

theorem harvest_kind {m : Mismatch} (h : m ∈ reconcileHarvestSplits records) : m.kind = .harvestSplit := by
  obtain ⟨r, _, hm⟩ := List.mem_filterMap.mp h
  dsimp only at hm
  split_ifs at hm <;> cases hm <;> rfl

theorem harvest_eq_nil : reconcileHarvestSplits records = [] ↔ ∀ r ∈ records, r.Adds := by
  have hlength := (forall₂_reports records).length_eq
  rw [← List.length_eq_zero_iff, ← hlength, List.length_eq_zero_iff, List.filter_eq_nil_iff]
  simp

theorem aggregate_nil_mem {totals : List VaultTotals} {m : Mismatch} (h : m ∈ reconcileAggregateBalances [] totals) :
    ∃ v ∈ totals, m.tier = some v.tier.text ∧ v.totalBalance ≠ 0 := by
  obtain ⟨v, hv, hm⟩ := List.mem_filterMap.mp h
  obtain ⟨hne, hm⟩ := Option.ite_none_right_eq_some.mp hm
  obtain rfl := Option.some.inj hm
  exact ⟨v, hv, rfl, Ne.symm hne⟩

theorem mem_aggregate_nil {totals : List VaultTotals} {v : VaultTotals} (hv : v ∈ totals)
    (h0 : v.totalBalance ≠ 0) : ∃ m ∈ reconcileAggregateBalances [] totals,
      m.kind = .aggregateBalance ∧ m.tier = some v.tier.text :=
  ⟨_, List.mem_filterMap.mpr ⟨v, hv, if_pos (Ne.symm h0)⟩, rfl, rfl⟩

theorem aggregate_nil_eq_nil {totals : List VaultTotals} :
    reconcileAggregateBalances [] totals = [] ↔ ∀ v ∈ totals, v.totalBalance = 0 := by
  rw [reconcileAggregateBalances, List.filterMap_eq_nil_iff]
  apply forall₂_congr
  intro v _
  exact ite_eq_right_iff.trans ⟨fun h => by_contra fun h0 => Option.some_ne_none _ (h (Ne.symm h0)),
    fun h0 hne => absurd h0.symm hne⟩

theorem reportOf_eq (total : Tier → ℤ) (records : List HarvestRecord) : reportOf total records =
    (reconcileAggregateBalances [] (TIERS.map fun tier => ⟨tier, total tier⟩)).map .inl ++
      (reconcileHarvestSplits records).map .inl := List.append_nil _

theorem aggregate_reported {total : Tier → ℤ} :
    (∃ m, .inl m ∈ reportOf total records ∧ m.kind = .aggregateBalance ∧ m.tier = some tier.text) ↔
      total tier ≠ 0 := by
  simp only [reportOf_eq, List.mem_append, List.mem_map, Sum.inl.injEq, exists_eq_right]
  constructor
  · rintro ⟨m, hm | hm, hkind, htier⟩
    · obtain ⟨v, hv, hsame, h0⟩ := aggregate_nil_mem hm
      obtain ⟨t, _, rfl⟩ := List.mem_map.mp hv
      obtain rfl : tier = t := Tier.text_inj.mp (Option.some.inj (htier.symm.trans hsame))
      exact h0
    · rw [harvest_kind hm] at hkind
      cases hkind
  · intro h0
    have hv : VaultTotals.mk tier (total tier) ∈ TIERS.map fun tier => ⟨tier, total tier⟩ :=
      List.mem_map_of_mem (mem_TIERS tier)
    obtain ⟨m, hm, hkind, htier⟩ := mem_aggregate_nil hv h0
    exact ⟨m, .inl hm, hkind, htier⟩

theorem reportOf_eq_nil {total : Tier → ℤ} :
    reportOf total records = [] ↔ (∀ tier, total tier = 0) ∧ ∀ r ∈ records, r.Adds := by
  rw [reportOf_eq, List.append_eq_nil_iff, List.map_eq_nil_iff, List.map_eq_nil_iff, aggregate_nil_eq_nil,
    harvest_eq_nil, List.forall_mem_map]
  exact and_congr_left fun _ => ⟨fun h tier => h tier (mem_TIERS tier), fun h tier _ => h tier⟩

theorem totalRead_eq_zero (hf : D.Fresh w) (hg : D.Guards rule) {cs : List World.Invocation}
    (hread : server.executed (.totalBalance tier) = .ok cs) (hcs : ∀ c ∈ cs, D.Admits c) :
    totalRead D rule w server tier = 0 ↔ ∀ user asset, Deployment.net rule D w cs tier user asset = 0 := by
  have hw : D.Wired (stateAfter D rule w cs) := wired_of_executed hf hg hcs
  obtain ⟨v, hv⟩ := hw.vault tier
  have htotal : totalRead D rule w server tier = v.book.totalPrincipal := by
    simp [totalRead, hread, hv]
    rfl
  have hnet : ∀ user asset, Deployment.net rule D w cs tier user asset = v.book.principal.getD (user, asset) 0 := by
    intro user asset
    have hsum := Deployment.run_balanceAt hf.wired hg hcs tier user asset
    rw [hf.balanceAt, zero_add, World.balanceAt] at hsum
    rw [← hsum]
    simp only [stateAfter] at hv
    rw [hv]
    rfl
  rw [htotal, (hw.coherent _ v hv).totalPrincipal_eq_zero]
  simp only [hnet, Prod.forall]

/-- A run of the job ends with a report exactly when there is no account to ask about and the rest is answered. The
report then names exactly the tiers in which some account has a position, and it is empty exactly when no account
has one anywhere and the harvests add up. -/
theorem job_unattended (name : Address → String) (parse : String → Option Address) (settings : Settings)
    (hf : D.Fresh w) (hg : D.Guards rule)
    (hcs : ∀ request cs, server.executed request = .ok cs → ∀ c ∈ cs, D.Admits c) :
    ((∃ report, job D rule w name parse server settings = .ok report) ↔
        Unattended D rule w name server settings) ∧
      ∀ report, job D rule w name parse server settings = .ok report →
        (∀ tier, (∃ m, .inl m ∈ report ∧ m.kind = .aggregateBalance ∧ m.tier = some tier.text) ↔
          ∃ cs user asset, server.executed (.totalBalance tier) = .ok cs ∧
            Deployment.net rule D w cs tier user asset ≠ 0) ∧
        (report = [] ↔ (∀ tier cs, server.executed (.totalBalance tier) = .ok cs →
            ∀ user asset, Deployment.net rule D w cs tier user asset = 0) ∧
          ∀ latest records, server.latestLedger = .ok latest →
            getHarvestEvents server (settings.startLedger latest) = .ok records → ∀ r ∈ records, r.Adds) := by
  have hw : ∀ tier cs, server.executed (.totalBalance tier) = .ok cs → D.Wired (stateAfter D rule w cs) :=
    fun tier cs h => wired_of_executed hf hg (hcs _ cs h)
  constructor
  · simp only [job_eq_ok hw, Unattended]
    constructor
    · rintro ⟨report, latest, records, hlatest, husers, hread, hrecords, _⟩
      exact ⟨latest, records, hlatest, husers, hread, hrecords⟩
    · rintro ⟨latest, records, hlatest, husers, hread, hrecords⟩
      exact ⟨_, latest, records, hlatest, husers, hread, hrecords, rfl⟩
  · intro report h
    obtain ⟨latest, records, hlatest, _, hread, hrecords, rfl⟩ := (job_eq_ok hw).mp h
    have hzero : ∀ tier cs, server.executed (.totalBalance tier) = .ok cs →
        (totalRead D rule w server tier = 0 ↔ ∀ user asset, Deployment.net rule D w cs tier user asset = 0) :=
      fun tier cs h => totalRead_eq_zero hf hg h (hcs _ cs h)
    constructor
    · intro tier
      obtain ⟨_, cs, hexecuted⟩ := hread tier
      rw [aggregate_reported, Ne, hzero tier cs hexecuted]
      simp [hexecuted]
    · rw [reportOf_eq_nil]
      constructor
      · rintro ⟨htotals, hadds⟩
        refine ⟨fun tier cs hexecuted => (hzero tier cs hexecuted).mp (htotals tier), ?_⟩
        intro latest' records' hlatest' hrecords'
        obtain rfl := Except.ok.inj (hlatest.symm.trans hlatest')
        obtain rfl := Except.ok.inj (hrecords.symm.trans hrecords')
        exact hadds
      · rintro ⟨hnet, hadds⟩
        refine ⟨fun tier => ?_, hadds latest records hlatest hrecords⟩
        obtain ⟨_, cs, hexecuted⟩ := hread tier
        exact (hzero tier cs hexecuted).mpr (hnet tier cs hexecuted)

/-- A server of the harness, at ledger 20,000, once the two deposits are in. -/
def afterDeposits : Server := ⟨.ok 20_000, fun _ => .ok Deployment.depositsRun, .ok []⟩

/-- The deposits are older than the window, so the job ends and reports VaultL3. -/
theorem job_unattended_afterDeposits :
    ∃ report m, job Deployment.harness Deployment.payoutsRule Deployment.harnessWorld spell (fun _ => none)
        afterDeposits ⟨none, [], "C"⟩ = .ok report ∧
      .inl m ∈ report ∧ m.kind = .aggregateBalance ∧ m.tier = some "L3" := by
  have hcs : ∀ request cs, afterDeposits.executed request = .ok cs → ∀ c ∈ cs, Deployment.harness.Admits c := by
    intro _ cs h
    obtain rfl := Except.ok.inj h
    exact Deployment.admits_depositsRun
  have hguards : Deployment.harness.Guards Deployment.payoutsRule := Deployment.guards_payouts fun _ => true
  obtain ⟨hends, hreports⟩ :=
    job_unattended spell (fun _ => none) ⟨none, [], "C"⟩ Deployment.harness_fresh hguards hcs
  have hquiet : ∀ tier, getVaultEvents Deployment.harness Deployment.payoutsRule Deployment.harnessWorld spell
      afterDeposits tier 2_720 = .ok [] := by
    intro tier
    cases tier <;> rfl
  obtain ⟨report, hreport⟩ := hends.mpr
    ⟨20_000, [], rfl, rfl, fun tier => ⟨hquiet tier, Deployment.depositsRun, rfl⟩, rfl⟩
  have hnet : Deployment.net Deployment.payoutsRule Deployment.harness Deployment.harnessWorld Deployment.depositsRun
      .l3 (.account 7) Deployment.usdc = 500_000_000 := rfl
  obtain ⟨m, hm⟩ := ((hreports report hreport).1 .l3).mpr
    ⟨_, .account 7, Deployment.usdc, rfl, hnet ▸ by decide⟩
  exact ⟨report, m, hreport, hm⟩

end YieldLadder.Reconcile
