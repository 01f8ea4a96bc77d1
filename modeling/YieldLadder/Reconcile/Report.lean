import YieldLadder.Harvester.Cadence
import YieldLadder.Reconcile.Job

/-! # The operational report

The report reads the total of each vault, the cap and the remaining capacity of the locked ones, and
when the harvester was last called and may be called again. Each number is read from whatever has been
executed by then. The percentage of the cap is in hundredths, before the division that makes it a float.
-/
namespace YieldLadder.Reconcile
open Foundation
open Deployment (Tvl)

structure TierHealth where
  tier : Tier
  totalBalance : String
  maxTvl : Option String
  remainingCapacity : Option String
  pctOfCap : Option ℤ
  deriving DecidableEq, Repr

structure HarvestHealth where
  lastHarvestLedger : ℕ
  nextHarvestLedger : ℕ
  currentLedger : ℕ
  cooldownElapsed : Bool
  ledgersUntilNextHarvest : ℕ
  deriving DecidableEq, Repr

structure OperationalReport where
  currentLedger : ℕ
  tiers : List TierHealth
  harvest : HarvestHealth
  deriving DecidableEq, Repr

inductive HarvesterRequest
  | lastHarvest
  | nextHarvestLedger
  deriving DecidableEq, Repr

/-- A server that also answers for the harvester contract. -/
structure Endpoint extends Server where
  harvested : HarvesterRequest → Except String (List Harvester.Invocation)

section Reads
variable (D : Deployment) (rule : TokenRule) (w : World) (name : Address → String) (parse : String → Option Address)
variable (harvester : Address) (h : Harvester.World) (server : Endpoint)

def readNumber (request : Request) (tier : Tier) (method : String) : Except String ℤ := do
  let value ← readContractValue D rule w name parse server.toServer request (D.vault tier) method []
  toBigInt (some value)

/-- Flex has no cap. -/
def readTierHealth (tier : Tier) : Except String TierHealth := do
  let totalBalance ← readNumber D rule w name parse server (.totalBalance tier) tier "total_balance"
  if tier = .flex then pure ⟨tier, toString totalBalance, none, none, none⟩
  else do
    let maxTvl ← readNumber D rule w name parse server (.maxTvl tier) tier "max_tvl"
    let remaining ← readNumber D rule w name parse server (.remainingCapacity tier) tier "remaining_capacity"
    pure ⟨tier, toString totalBalance, some (toString maxTvl), some (toString remaining),
      if 0 < maxTvl then some ((totalBalance * 10_000).tdiv maxTvl) else none⟩

def harvesterAfter (hs : List Harvester.Invocation) : Harvester.World := run (Harvester.exec rule harvester) h hs

def operationalReport : Except String OperationalReport := do
  let currentLedger ← server.latestLedger
  let tiers ← TIERS.mapM (readTierHealth D rule w name parse server)
  let before ← server.harvested .lastHarvest
  let lastHarvestLedger := Harvester.lastHarvest (harvesterAfter rule harvester h before)
  let since ← server.harvested .nextHarvestLedger
  let nextHarvestLedger := Harvester.nextHarvestLedger (harvesterAfter rule harvester h since)
  pure ⟨currentLedger, tiers, {
    lastHarvestLedger
    nextHarvestLedger
    currentLedger
    cooldownElapsed := currentLedger ≥ nextHarvestLedger
    -- the subtraction stops at zero, as `Math.max(0, ...)` does
    ledgersUntilNextHarvest := nextHarvestLedger - currentLedger }⟩

/-- The caps and totals by the time the server answers a request, as the accepted calls add up. -/
def tvlRead (request : Request) : Tvl :=
  match server.executed request with
  | .ok cs => replay (Tvl.apply D) (.of D w) (log (World.exec rule D.router) w cs)
  | .error _ => .of D w

/-- The health of a tier, by the caps and totals at the three times it is read. -/
def healthOf (tier : Tier) (total cap remaining : Tvl) : TierHealth :=
  if tier = .flex then ⟨tier, toString (total.total tier), none, none, none⟩
  else ⟨tier, toString (total.total tier), some (toString (cap.cap tier)),
    some (toString (max (remaining.cap tier - remaining.total tier) 0)),
    if 0 < cap.cap tier then some ((total.total tier * 10_000).tdiv (cap.cap tier)) else none⟩

/-- The server answers for the tier, and what remains below the cap is in range. -/
structure Readable (tier : Tier) : Prop where
  total : ∃ cs, server.executed (.totalBalance tier) = .ok cs
  cap : tier ≠ .flex → ∃ cs, server.executed (.maxTvl tier) = .ok cs
  remaining : tier ≠ .flex → (∃ cs, server.executed (.remainingCapacity tier) = .ok cs) ∧
    InI128 ((tvlRead D rule w server (.remainingCapacity tier)).cap tier -
      (tvlRead D rule w server (.remainingCapacity tier)).total tier)

end Reads

variable {D : Deployment} {rule : TokenRule} {w : World} {name : Address → String} {parse : String → Option Address}
variable {harvester strategy usdc : Address} {h h₀ : Harvester.World} {server : Endpoint} {c : ℕ}
variable {tier : Tier} {request : Request} {method : String} {x : ℤ} {report : OperationalReport}

@[simp] theorem toBigInt_i128 : toBigInt (some (.i128 x)) = .ok x := rfl

/-- A number that a vault shows without arguments. -/
theorem readNumber_eq_ok {q : Query} {cs : List World.Invocation} {v : TierVault}
    (hmethod : TierVault.decode method [] = some q) (hcs : server.executed request = .ok cs)
    (hv : (stateAfter D rule w cs).vaults (D.vault tier) = some v) :
    readNumber D rule w name parse server request tier method = .ok x ↔
      ∃ r, v.step ⟨[], none, 0⟩ (.query q) = .ok r ∧ toBigInt (some (.ofValue r.2.value)) = .ok x := by
  have hsimulate : ∀ value, simulate D rule (stateAfter D rule w cs) (D.vault tier) method [] = some value ↔
      ∃ r, v.step ⟨[], none, 0⟩ (.query q) = .ok r ∧ r.2.value = value := by
    intro value
    rw [simulate, if_neg (D.vault_ne_router tier), hmethod]
    exact toOption_eq_some.trans (Deployment.ask_eq_ok hv)
  simp only [readNumber, readContractValue, hcs, ok_bind, List.mapM_nil, pure_bind, bind_eq_ok, expect_eq_ok,
    hsimulate, pure_eq_ok]
  constructor
  · rintro ⟨_, ⟨_, ⟨r, hr, rfl⟩, rfl⟩, hx⟩
    exact ⟨r, hr, hx⟩
  · rintro ⟨r, hr, hx⟩
    exact ⟨_, ⟨_, ⟨r, hr, rfl⟩, rfl⟩, hx⟩

theorem readNumber_of_error {e : String} (he : server.executed request = .error e) :
    readNumber D rule w name parse server request tier method ≠ .ok x := by
  simp [readNumber, readContractValue, he]

section Wired
variable (hw : D.Wired w) (hg : D.Guards rule)
  (hcs : ∀ request cs, server.executed request = .ok cs → ∀ c ∈ cs, D.Admits c)
include hw hg hcs

/-- The state in which a request is answered has the vaults, with the caps and totals of the calls. -/
theorem vault_read {cs : List World.Invocation} (hread : server.executed request = .ok cs) (tier : Tier) :
    ∃ v, (stateAfter D rule w cs).vaults (D.vault tier) = some v ∧
      v.totalBalance = (tvlRead D rule w server request).total tier ∧
      (tier ≠ .flex → ∃ s, v.core = some s ∧ Locked.maxTvl s = (tvlRead D rule w server request).cap tier) := by
  obtain ⟨⟨hnow, hstored⟩, _⟩ := Deployment.run_stored hw hg (hcs _ cs hread)
  obtain ⟨v, hv⟩ := hnow.vault tier
  have htvl : tvlRead D rule w server request =
      replay (Tvl.apply D) (.of D w) (log (World.exec rule D.router) w cs) := by
    rw [tvlRead, hread]
  refine ⟨v, hv, ?_, fun ht => ?_⟩
  · rw [htvl]
    exact hstored.total tier v hv
  · obtain ⟨s, i, hs, hi, _, hcap⟩ := hstored.capped tier v ht hv
    refine ⟨s, hs, ?_⟩
    rw [htvl, Locked.maxTvl, hi]
    exact hcap

theorem readTotal_eq_ok : readNumber D rule w name parse server (.totalBalance tier) tier "total_balance" = .ok x ↔
    (∃ cs, server.executed (.totalBalance tier) = .ok cs) ∧
      x = (tvlRead D rule w server (.totalBalance tier)).total tier := by
  cases hread : server.executed (.totalBalance tier) with
  | error e => simp [readNumber_of_error hread]
  | ok cs =>
    obtain ⟨v, hv, htotal, _⟩ := vault_read hw hg hcs hread tier
    rw [readNumber_eq_ok rfl hread hv]
    simp [htotal, ScVal.ofValue, eq_comm]

theorem readCap_eq_ok (ht : tier ≠ .flex) :
    readNumber D rule w name parse server (.maxTvl tier) tier "max_tvl" = .ok x ↔
      (∃ cs, server.executed (.maxTvl tier) = .ok cs) ∧
        x = (tvlRead D rule w server (.maxTvl tier)).cap tier := by
  cases hread : server.executed (.maxTvl tier) with
  | error e => simp [readNumber_of_error hread]
  | ok cs =>
    obtain ⟨v, hv, _, hcap⟩ := vault_read hw hg hcs hread tier
    obtain ⟨s, hs, hmax⟩ := hcap ht
    rw [readNumber_eq_ok rfl hread hv]
    simp [TierVault.step_maxTvl _ hs, hmax, ScVal.ofValue, eq_comm]

theorem readRemaining_eq_ok (ht : tier ≠ .flex) :
    readNumber D rule w name parse server (.remainingCapacity tier) tier "remaining_capacity" = .ok x ↔
      ((∃ cs, server.executed (.remainingCapacity tier) = .ok cs) ∧
        InI128 ((tvlRead D rule w server (.remainingCapacity tier)).cap tier -
          (tvlRead D rule w server (.remainingCapacity tier)).total tier)) ∧
      x = max ((tvlRead D rule w server (.remainingCapacity tier)).cap tier -
        (tvlRead D rule w server (.remainingCapacity tier)).total tier) 0 := by
  cases hread : server.executed (.remainingCapacity tier) with
  | error e => simp [readNumber_of_error hread]
  | ok cs =>
    obtain ⟨v, hv, htotal, hcap⟩ := vault_read hw hg hcs hread tier
    obtain ⟨s, hs, hmax⟩ := hcap ht
    rw [readNumber_eq_ok rfl hread hv]
    simp only [TierVault.step_remainingCapacity hs, hmax, htotal]
    constructor
    · rintro ⟨_, ⟨hin, rfl⟩, hx⟩
      exact ⟨⟨⟨cs, rfl⟩, hin⟩, (Except.ok.inj hx).symm⟩
    · rintro ⟨⟨_, hin⟩, rfl⟩
      exact ⟨_, ⟨hin, rfl⟩, rfl⟩

theorem readTierHealth_eq_ok {health : TierHealth} :
    readTierHealth D rule w name parse server tier = .ok health ↔ Readable D rule w server tier ∧
      health = healthOf tier (tvlRead D rule w server (.totalBalance tier))
        (tvlRead D rule w server (.maxTvl tier))
        (tvlRead D rule w server (.remainingCapacity tier)) := by
  by_cases ht : tier = .flex
  · simp only [readTierHealth, if_pos ht, bind_eq_ok, readTotal_eq_ok hw hg hcs, pure_eq_ok, healthOf]
    constructor
    · rintro ⟨_, ⟨htotal, rfl⟩, rfl⟩
      exact ⟨⟨htotal, fun hne => absurd ht hne, fun hne => absurd ht hne⟩, rfl⟩
    · rintro ⟨hread, rfl⟩
      exact ⟨_, ⟨hread.total, rfl⟩, rfl⟩
  · simp only [readTierHealth, if_neg ht, bind_eq_ok, readTotal_eq_ok hw hg hcs, readCap_eq_ok hw hg hcs ht,
      readRemaining_eq_ok hw hg hcs ht, pure_eq_ok, healthOf]
    constructor
    · rintro ⟨_, ⟨htotal, rfl⟩, _, ⟨hcap, rfl⟩, _, ⟨hremaining, rfl⟩, rfl⟩
      exact ⟨⟨htotal, fun _ => hcap, fun _ => hremaining⟩, rfl⟩
    · rintro ⟨hread, rfl⟩
      exact ⟨_, ⟨hread.total, rfl⟩, _, ⟨hread.cap ht, rfl⟩, _, ⟨hread.remaining ht, rfl⟩, rfl⟩

/-- What remains below the cap, as it is shown, is what the next deposit is held to. -/
theorem deposit_remaining (ht : tier ≠ .flex) {cs : List World.Invocation}
    (hread : server.executed (.remainingCapacity tier) = .ok cs) {env : Env} {user asset : Address} {amount : ℤ}
    {r : World × Reply} (hr : World.exec rule D.router (stateAfter D rule w cs)
      (env, .router (.deposit user tier asset amount)) = .ok r) :
    amount ≤ max ((tvlRead D rule w server (.remainingCapacity tier)).cap tier -
      (tvlRead D rule w server (.remainingCapacity tier)).total tier) 0 := by
  obtain ⟨v, hv, htotal, hcap⟩ := vault_read hw hg hcs hread tier
  obtain ⟨s, hs, hmax⟩ := hcap ht
  obtain ⟨⟨hnow, _⟩, _⟩ := Deployment.run_stored hw hg (hcs _ cs hread)
  obtain ⟨_, hroom, _⟩ := Deployment.deposit_core hnow hv hs hr
  rw [← htotal, ← hmax, le_max_iff]
  omega

end Wired

/-- What holds of the harvester after the calls that the server has seen. -/
theorem harvester_kept (hg : Harvester.Guards rule harvester) (hs : strategy ≠ harvester)
    (hinit : Harvester.initialise h₀ strategy usdc c = .ok h) (h0 : 0 ≤ h.tokens usdc harvester)
    {calls : List Harvester.Invocation} (hcalls : ∀ q ∈ calls, Harvester.Admits harvester q) :
    Harvester.Kept harvester strategy usdc c h (harvesterAfter rule harvester h calls)
      (log (Harvester.exec rule harvester) h calls) := by
  simp only [Harvester.initialise, bind_eq_ok, pure_eq_ok] at hinit
  obtain ⟨_, _, rfl⟩ := hinit
  refine run_log_invariant_of_meets (fun _ _ _ _ hq hk hr => Harvester.exec_kept hk hg hs hq hr) ?_
    (meets_of_forall hcalls)
  exact ⟨rfl, h0, List.isChain_singleton 0, by simp [Harvester.received, Harvester.total], rfl, le_rfl⟩

/-- What the report promises of the harvester: its last harvest, and how many ledgers a harvest is still refused. -/
structure Due (rule : TokenRule) (harvester : Address) (h : Harvester.World) (server : Endpoint)
    (report : OperationalReport) : Prop where
  last : ∀ calls, server.harvested .lastHarvest = .ok calls → report.harvest.lastHarvestLedger =
    (Harvester.ledgers (log (Harvester.exec rule harvester) h calls)).getLastD 0
  refused : ∀ calls, server.harvested .nextHarvestLedger = .ok calls → ∀ env caller,
    ¬env.Authorized harvester → env.Authorized caller → ∀ n, env.ledger = report.currentLedger + n →
      (Harvester.harvest rule harvester env (harvesterAfter rule harvester h calls) caller =
        .error Harvester.cooldownFault ↔ n < report.harvest.ledgersUntilNextHarvest)
  elapsed : report.harvest.cooldownElapsed = true ↔ report.harvest.ledgersUntilNextHarvest = 0

/-- Against any deployment, harvester and server: the report is made exactly when every request is answered and what
remains below each cap is in range. It then shows the totals and caps that the accepted calls add up to by the time
each is read, a remaining capacity that no deposit made then exceeds, and the ledgers until a harvest is no longer
refused. -/
theorem run_reported (name : Address → String) (parse : String → Option Address) (hw : D.Wired w)
    (hg : D.Guards rule) (hcs : ∀ request cs, server.executed request = .ok cs → ∀ c ∈ cs, D.Admits c)
    (hgh : Harvester.Guards rule harvester) (hs : strategy ≠ harvester)
    (hinit : Harvester.initialise h₀ strategy usdc c = .ok h) (h0 : 0 ≤ h.tokens usdc harvester)
    (hcalls : ∀ request calls, server.harvested request = .ok calls →
      ∀ q ∈ calls, Harvester.Admits harvester q) :
    ((∃ report, operationalReport D rule w name parse harvester h server = .ok report) ↔
      (∃ latest, server.latestLedger = .ok latest) ∧ (∀ tier, Readable D rule w server tier) ∧
        ∀ request, ∃ calls, server.harvested request = .ok calls) ∧
    ∀ report, operationalReport D rule w name parse harvester h server = .ok report →
      report.tiers = TIERS.map (fun tier => healthOf tier (tvlRead D rule w server (.totalBalance tier))
        (tvlRead D rule w server (.maxTvl tier)) (tvlRead D rule w server (.remainingCapacity tier))) ∧
      (∀ tier cs env user asset amount r, tier ≠ .flex → server.executed (.remainingCapacity tier) = .ok cs →
        World.exec rule D.router (stateAfter D rule w cs) (env, .router (.deposit user tier asset amount)) = .ok r →
        ∃ health ∈ report.tiers, health.tier = tier ∧
          ∃ remaining, health.remainingCapacity = some (toString remaining) ∧ amount ≤ remaining) ∧
      Due rule harvester h server report := by
  have htiers : ∀ tiers, TIERS.mapM (readTierHealth D rule w name parse server) = .ok tiers ↔
      (∀ tier ∈ TIERS, Readable D rule w server tier) ∧
        tiers = TIERS.map (fun tier => healthOf tier (tvlRead D rule w server (.totalBalance tier))
          (tvlRead D rule w server (.maxTvl tier)) (tvlRead D rule w server (.remainingCapacity tier))) :=
    fun _ => mapM_eq_ok_map fun _ _ => readTierHealth_eq_ok hw hg hcs
  simp only [operationalReport, bind_eq_ok, htiers, pure_eq_ok]
  constructor
  · constructor
    · rintro ⟨report, latest, hlatest, _, ⟨hread, rfl⟩, before, hbefore, since, hsince, rfl⟩
      refine ⟨⟨latest, hlatest⟩, fun tier => hread tier (mem_TIERS tier), fun request => ?_⟩
      cases request with
      | lastHarvest => exact ⟨before, hbefore⟩
      | nextHarvestLedger => exact ⟨since, hsince⟩
    · rintro ⟨⟨latest, hlatest⟩, hread, hharvested⟩
      obtain ⟨before, hbefore⟩ := hharvested .lastHarvest
      obtain ⟨since, hsince⟩ := hharvested .nextHarvestLedger
      exact ⟨_, latest, hlatest, _, ⟨fun tier _ => hread tier, rfl⟩, before, hbefore, since, hsince, rfl⟩
  · rintro report ⟨latest, hlatest, _, ⟨hread, rfl⟩, before, hbefore, since, hsince, rfl⟩
    refine ⟨rfl, ?_, ⟨?_, ?_, ?_⟩⟩
    · intro tier cs env user asset amount r ht hexecuted hr
      refine ⟨_, List.mem_map_of_mem (mem_TIERS tier), ?_⟩
      simp only [healthOf, if_neg ht, true_and]
      exact ⟨_, rfl, deposit_remaining hw hg hcs ht hexecuted hr⟩
    · intro calls hc
      obtain rfl := Except.ok.inj (hbefore.symm.trans hc)
      have hkept := harvester_kept hgh hs hinit h0 (hcalls _ _ hbefore)
      simp only [Harvester.lastHarvest, hkept.inst, Option.map_some, Option.getD_some]
    · intro calls hc env caller hself hauth n hn
      obtain rfl := Except.ok.inj (hsince.symm.trans hc)
      have hkept := harvester_kept hgh hs hinit h0 (hcalls _ _ hsince)
      rw [Harvester.cooldown_iff hkept.inst hself hkept.held hauth, hn]
      exact Nat.lt_sub_iff_add_lt'.symm
    · simp only [decide_eq_true_eq, ge_iff_le, Nat.sub_eq_zero_iff_le]

/-- Contract 7 is a harvester for contract 8, with a cooldown of 15 ledgers. -/
def idleHarvester : Harvester.World := ⟨some ⟨.contract 8, .contract 5, 0, 15⟩, fun _ _ => 0⟩

/-- A server of the harness at ledger 20,000, ten ledgers after a harvest, with the capped run executed. -/
def afterCap : Endpoint where
  latestLedger := .ok 20_000
  executed _ := .ok Deployment.cappedRun
  harvests := .ok []
  harvested _ := .ok [(⟨[8], none, 19_990⟩, .harvester (.harvest (.account 8)))]

/-- Another harvest goes through five ledgers later. -/
theorem run_reported_afterCap :
    ∃ report, operationalReport Deployment.harness .host Deployment.harnessWorld spell (fun _ => none) (.contract 7)
        idleHarvester afterCap = .ok report ∧
      report.harvest.ledgersUntilNextHarvest = 5 ∧ Due .host (.contract 7) idleHarvester afterCap report := by
  have hcs : ∀ request cs, afterCap.executed request = .ok cs → ∀ c ∈ cs, Deployment.harness.Admits c := by
    intro _ cs h
    obtain rfl := Except.ok.inj h
    exact Deployment.admits_cappedRun
  have hgh : Harvester.Guards .host (.contract 7) := by
    intro c h
    cases h
  have hinit : Harvester.initialise ⟨none, fun _ _ => 0⟩ (.contract 8) (.contract 5) 15 = .ok idleHarvester := rfl
  have hcalls : ∀ request calls, afterCap.harvested request = .ok calls →
      ∀ q ∈ calls, Harvester.Admits (.contract 7) q := by
    intro _ calls h
    obtain rfl := Except.ok.inj h
    simp [Harvester.Admits, Env.authorized_contract]
  obtain ⟨_, htells⟩ := run_reported spell (fun _ => none) Deployment.harness_fresh.wired Deployment.guards_host hcs
    hgh (by decide) hinit le_rfl hcalls
  obtain ⟨report, hreport, huntil⟩ : ∃ report,
      operationalReport Deployment.harness .host Deployment.harnessWorld spell (fun _ => none) (.contract 7)
        idleHarvester afterCap = .ok report ∧
        report.harvest.ledgersUntilNextHarvest = 5 := ⟨_, rfl, rfl⟩
  exact ⟨report, hreport, huntil, (htells report hreport).2.2⟩

end YieldLadder.Reconcile
