import YieldLadder.Foundation.Decimal
import YieldLadder.Router.Fees
import YieldLadder.Router.Views
import YieldLadder.Sdk.Minimums
import YieldLadder.Sdk.Transactions

/-! # Positions and exits through the SDK

An exit reads the position, takes the principal back out of its text, and has it signed
and sent as the amount. Nothing holds the position still in between: what keeps an exit
from being paid twice is that it asks for everything there was.
-/
namespace YieldLadder.Sdk
open Foundation Foundation.EcmaScript

/-- What the router's `position` answers, as the Stellar SDK decodes it. -/
structure RawPosition where
  principal : ℤ
  shares : ℤ
  lockUntil : ℕ

structure Position where
  tier : Tier
  principal : List ℕ
  shares : List ℕ
  accruedYield : List ℕ
  lockUntil : Option ℕ
  deriving DecidableEq, Repr

def TIERS : List Tier := [.flex, .l3, .l6, .l12]

structure YieldLadderOptions where
  pipeline : TransactionPipelineConfig
  vaultRouterContractId : String
  assetContractId : String

/-- The conversions of the Stellar SDK: an address or an amount can be refused, and a simulation need not come
with a result. -/
structure Conversions (S V : Type) where
  addressToScVal : String → Except Thrown V
  tierToScVal : Tier → V
  amountToScVal : ℤ → Except Thrown V
  result : S → Option RawPosition

variable {A V S T R : Type}

def simulateRead (outside : Outside A V S T) (config : TransactionPipelineConfig) (result : S → Option R)
    (params : InvokeContractParams V) : Traced (Event A S T) Thrown R := do
  let tx ← buildTransaction outside config params
  let sim ← simulateWithRetry outside tx
  .ofExcept (throwIfSimulationFailed sim params.method)
  let retval := match sim with
    | .success simulation => result simulation
    | .error _ => none
  .ofExcept (expect (.ladder (.simulationFailed ("Simulating \"" ++ params.method ++ "\" returned no result")
    "no_result")) retval)

def toPosition (tier : Tier) (raw : RawPosition) : Position where
  tier := tier
  principal := bigIntToString raw.principal
  shares := bigIntToString raw.shares
  accruedYield := [0x30]
  lockUntil := if raw.lockUntil = 0 then none else some raw.lockUntil

def queryTierPosition (outside : Outside A V S T) (convert : Conversions S V) (options : YieldLadderOptions)
    (address : String) (tier : Tier) : Traced (Event A S T) Thrown Position := do
  let user ← .ofExcept (convert.addressToScVal address)
  let asset ← .ofExcept (convert.addressToScVal options.assetContractId)
  let raw ← simulateRead outside options.pipeline convert.result
    ⟨options.vaultRouterContractId, "position", [user, convert.tierToScVal tier, asset]⟩
  pure (toPosition tier raw)

/-- `withdraw` and `earlyExit` of the client, where no call with its key is in flight. -/
def exit (outside : Outside A V S T) (convert : Conversions S V) (options : YieldLadderOptions) (method : String)
    (tier : Tier) : Traced (Event A S T) Thrown String := do
  let position ← queryTierPosition outside convert options options.pipeline.publicKey tier
  let user ← .ofExcept (convert.addressToScVal options.pipeline.publicKey)
  let asset ← .ofExcept (convert.addressToScVal options.assetContractId)
  let principal ← .ofExcept (expect (.error "SyntaxError") (bigInt position.principal))
  let amount ← .ofExcept (convert.amountToScVal principal)
  doInvoke outside options.pipeline
    ⟨options.vaultRouterContractId, method, [user, convert.tierToScVal tier, asset, amount]⟩

def withdraw (outside : Outside A V S T) (convert : Conversions S V) (options : YieldLadderOptions)
    (tier : Tier) : Traced (Event A S T) Thrown String :=
  exit outside convert options "withdraw" tier

def earlyExit (outside : Outside A V S T) (convert : Conversions S V) (options : YieldLadderOptions)
    (tier : Tier) : Traced (Event A S T) Thrown String :=
  exit outside convert options "early_exit" tier

def choose (positions : List Position) : Option Position :=
  positions.find? (fun p => p.principal ≠ [0x30]) <|> positions[0]?

/-- `none` when a read rejects. -/
def position (outside : Outside A V S T) (convert : Conversions S V) (options : YieldLadderOptions)
    (address : String) : Option Position := do
  let positions ← TIERS.mapM fun tier => (queryTierPosition outside convert options address tier).result.toOption
  choose positions

variable {outside : Outside A V S T} {convert : Conversions S V} {options : YieldLadderOptions}
variable {config : TransactionPipelineConfig} {result : S → Option R} {params : InvokeContractParams V}
variable {address method : String} {tier : Tier} {tx : T} {P : Event A S T → Prop}

theorem simulateRead_all (haccount : ∀ answer, P (.getAccount answer))
    (hsimulate : ∀ tx answer, P (.simulateTransaction tx answer)) (hsleep : ∀ ms, P (.sleep ms)) :
    (simulateRead outside config result params).All P := by
  refine (buildTransaction_all haccount hsleep).bind fun tx _ => ?_
  refine (simulateWithRetry_all (hsimulate tx) hsleep).bind fun sim _ => ?_
  exact (Traced.All.ofExcept _).bind fun _ _ => .ofExcept _

theorem queryTierPosition_all (haccount : ∀ answer, P (.getAccount answer))
    (hsimulate : ∀ tx answer, P (.simulateTransaction tx answer)) (hsleep : ∀ ms, P (.sleep ms)) :
    (queryTierPosition outside convert options address tier).All P := by
  refine (Traced.All.ofExcept _).bind fun user _ => (Traced.All.ofExcept _).bind fun asset _ => ?_
  exact (simulateRead_all haccount hsimulate hsleep).bind fun raw _ => nofun

theorem signed_of_sent {answer : Except Thrown SendTransactionResponse}
    (h : .sendTransaction tx answer ∈ (doInvoke outside config params).trace) : Signed outside config params tx := by
  cases hprepare : (prepareAndSign outside config params).result with
  | ok signedTx =>
    obtain ⟨rfl, _⟩ := (sendTransaction_mem_iff hprepare).mp h
    exact prepareAndSign_eq_ok.mp hprepare
  | error error =>
    rw [doInvoke_of_error hprepare] at h
    exact absurd (prepareAndSign_sends_nothing _ h) Bool.noConfusion

/-- What an exit sends asks for the principal that was read. -/
theorem exit_sent {answer : Except Thrown SendTransactionResponse}
    (h : .sendTransaction tx answer ∈ (exit outside convert options method tier).trace) :
    ∃ user asset raw amount, convert.addressToScVal options.pipeline.publicKey = .ok user ∧
      convert.addressToScVal options.assetContractId = .ok asset ∧
      (simulateRead outside options.pipeline convert.result
        ⟨options.vaultRouterContractId, "position", [user, convert.tierToScVal tier, asset]⟩).result = .ok raw ∧
      convert.amountToScVal raw.principal = .ok amount ∧
      Signed outside options.pipeline
        ⟨options.vaultRouterContractId, method, [user, convert.tierToScVal tier, asset, amount]⟩ tx := by
  have hreads : (queryTierPosition outside convert options options.pipeline.publicKey tier).All
      fun event => event.sends = false := queryTierPosition_all (fun _ => rfl) (fun _ _ => rfl) fun _ => rfl
  rcases Traced.mem_bind h with hread | ⟨position, hposition, hrest⟩
  · exact absurd (hreads _ hread) Bool.noConfusion
  simp only [queryTierPosition, Traced.bind_result_eq_ok, Traced.ofExcept_result] at hposition
  obtain ⟨user, huser, asset, hasset, raw, hraw, hpure⟩ := hposition
  obtain rfl : toPosition tier raw = position := Except.ok.inj hpure
  obtain ⟨user', huser', hrest⟩ := Traced.mem_ofExcept_bind hrest
  obtain rfl : user = user' := Except.ok.inj (huser.symm.trans huser')
  obtain ⟨asset', hasset', hrest⟩ := Traced.mem_ofExcept_bind hrest
  obtain rfl : asset = asset' := Except.ok.inj (hasset.symm.trans hasset')
  obtain ⟨principal, hprincipal, hrest⟩ := Traced.mem_ofExcept_bind hrest
  obtain rfl : raw.principal = principal := by
    rw [toPosition, bigInt_bigIntToString, expect_some] at hprincipal
    exact Except.ok.inj hprincipal
  obtain ⟨amount, hamount, hrest⟩ := Traced.mem_ofExcept_bind hrest
  exact ⟨user, asset, raw, amount, huser, hasset, hraw, hamount, signed_of_sent hrest⟩

/-- An exit whose read resolves is the invocation that asks for the principal. -/
theorem exit_of_read {user asset amount : V} {raw : RawPosition}
    (huser : convert.addressToScVal options.pipeline.publicKey = .ok user)
    (hasset : convert.addressToScVal options.assetContractId = .ok asset)
    (hraw : (simulateRead outside options.pipeline convert.result
      ⟨options.vaultRouterContractId, "position", [user, convert.tierToScVal tier, asset]⟩).result = .ok raw)
    (hamount : convert.amountToScVal raw.principal = .ok amount) :
    (exit outside convert options method tier).result = (doInvoke outside options.pipeline
        ⟨options.vaultRouterContractId, method, [user, convert.tierToScVal tier, asset, amount]⟩).result ∧
      (exit outside convert options method tier).trace =
        (queryTierPosition outside convert options options.pipeline.publicKey tier).trace ++
          (doInvoke outside options.pipeline
            ⟨options.vaultRouterContractId, method, [user, convert.tierToScVal tier, asset, amount]⟩).trace := by
  have hquery : (queryTierPosition outside convert options options.pipeline.publicKey tier).result =
      .ok (toPosition tier raw) := by
    simp only [queryTierPosition, Traced.bind_result_eq_ok, Traced.ofExcept_result]
    exact ⟨user, huser, asset, hasset, raw, hraw, rfl⟩
  have hprincipal : expect (Thrown.error "SyntaxError") (bigInt (toPosition tier raw).principal) =
      .ok raw.principal := by
    rw [toPosition, bigInt_bigIntToString, expect_some]
  unfold exit
  rw [Traced.bind_of_ok hquery, Traced.ofExcept_bind_of_ok huser, Traced.ofExcept_bind_of_ok hasset,
    Traced.ofExcept_bind_of_ok hprincipal, Traced.ofExcept_bind_of_ok hamount]
  exact ⟨rfl, rfl⟩

/-- All the reads resolve, and one of the answers is chosen. -/
theorem position_eq_some {p : Position} : position outside convert options address = some p ↔
    ∃ answers : Tier → Position,
      (∀ tier, (queryTierPosition outside convert options address tier).result = .ok (answers tier)) ∧
      choose (TIERS.map answers) = some p := by
  simp only [position, TIERS, List.mapM_cons, List.mapM_nil, List.map_cons, List.map_nil, Option.bind_eq_bind,
    Option.bind_eq_some_iff, Option.pure_def, Option.some.injEq, toOption_eq_some]
  constructor
  · rintro ⟨positions, ⟨p0, h0, rest, ⟨p1, h1, rest1, ⟨p2, h2, rest2,
      ⟨p3, h3, rest3, rfl, rfl⟩, rfl⟩, rfl⟩, rfl⟩, hchoose⟩
    refine ⟨fun tier => tier.rec p0 p1 p2 p3, ?_, hchoose⟩
    intro tier
    cases tier with
    | flex => exact h0
    | l3 => exact h1
    | l6 => exact h2
    | l12 => exact h3
  · rintro ⟨answers, hanswers, hchoose⟩
    exact ⟨_, ⟨_, hanswers _, _, ⟨_, hanswers _, _, ⟨_, hanswers _, _,
      ⟨_, hanswers _, _, rfl, rfl⟩, rfl⟩, rfl⟩, rfl⟩, hchoose⟩

theorem bigIntToString_eq_zero {x : ℤ} : bigIntToString x = [0x30] ↔ x = 0 := by
  have hzero : bigIntToString 0 = [0x30] := by decide
  rw [← hzero, bigIntToString_injective.eq_iff]

/-- The first tier up the ladder with a principal, or Flex when there is none. -/
theorem choose_map {answers : Tier → Position} {principal : Tier → ℤ} {p : Position}
    (hprincipal : ∀ tier, (answers tier).principal = bigIntToString (principal tier))
    (h : choose (TIERS.map answers) = some p) :
    (∃ before tier after, TIERS = before ++ tier :: after ∧ p = answers tier ∧ principal tier ≠ 0 ∧
        ∀ t ∈ before, principal t = 0) ∨
      p = answers .flex ∧ ∀ tier, principal tier = 0 := by
  have hnonzero : ∀ tier, (answers tier).principal ≠ [0x30] ↔ principal tier ≠ 0 := by
    intro tier
    rw [hprincipal, ne_eq, bigIntToString_eq_zero]
  rw [choose, List.find?_map] at h
  cases hfind : TIERS.find? ((fun p => decide (p.principal ≠ [0x30])) ∘ answers) with
  | some tier =>
    obtain ⟨hsome, before, after, hsplit, hbefore⟩ := List.find?_eq_some_iff_append.mp hfind
    rw [hfind] at h
    refine .inl ⟨before, tier, after, hsplit, (Option.some.inj h).symm, ?_, ?_⟩
    · exact (hnonzero tier).mp (of_decide_eq_true hsome)
    · intro t ht
      by_contra hne
      have hno := hbefore t ht
      rw [Function.comp_apply, decide_eq_true ((hnonzero t).mpr hne)] at hno
      cases hno
  | none =>
    rw [hfind] at h
    refine .inr ⟨(Option.some.inj h).symm, ?_⟩
    intro tier
    have hall := List.find?_eq_none.mp hfind
    have hmem : tier ∈ TIERS := by cases tier <;> decide
    have hzero := hall tier hmem
    by_contra hne
    exact hzero (decide_eq_true ((hnonzero tier).mpr hne))

section Served
open Deployment (flow net exits)
variable {D : Deployment} {rule : TokenRule} {w : World} {env : Env} {user asset : Address}
variable {cs ds : List World.Invocation}

/-- The server simulates the router's `position` of the account in the world `w`. -/
def Serves (outside : Outside A V S T) (convert : Conversions S V) (options : YieldLadderOptions) (D : Deployment)
    (w : World) (address : String) (user asset : Address) : Prop :=
  ∀ tier account token raw, convert.addressToScVal address = .ok account →
    convert.addressToScVal options.assetContractId = .ok token →
    (simulateRead outside options.pipeline convert.result
      ⟨options.vaultRouterContractId, "position", [account, convert.tierToScVal tier, token]⟩).result = .ok raw →
    ∃ env, VaultRouter.position D.router env w user (tierToScVal tier) asset =
      .ok (.position raw.principal raw.shares raw.lockUntil)

theorem principal_of_position {raw : RawPosition} (hw : D.Wired w)
    (h : VaultRouter.position D.router env w user (tierToScVal tier) asset =
      .ok (.position raw.principal raw.shares raw.lockUntil)) :
    raw.principal = w.balanceAt (D.vault (tierToScVal tier)) user asset := by
  obtain ⟨v, hv⟩ := hw.vault (tierToScVal tier)
  rw [Deployment.position_eq hw hv] at h
  obtain ⟨hprincipal, _⟩ := Value.position.inj (Except.ok.inj h)
  rw [World.balanceAt, hv]
  exact hprincipal.symm

/-- In every state that a run from a fresh deployment reaches, `position` shows the first tier up the ladder in which
the account has a principal, and what it shows is the sum of the calls that went through; it shows none only when all
four tiers are empty. -/
theorem position_shown {p : Position} (hf : D.Fresh w) (hg : D.Guards rule) (hds : ∀ c ∈ ds, D.Admits c)
    (hserves : Serves outside convert options D (run (World.exec rule D.router) w ds) address user asset)
    (h : position outside convert options address = some p) :
    bigInt p.principal = some (net rule D w ds (tierToScVal p.tier) user asset) ∧
      ((∃ before after, TIERS = before ++ p.tier :: after ∧
          net rule D w ds (tierToScVal p.tier) user asset ≠ 0 ∧
          ∀ t ∈ before, net rule D w ds (tierToScVal t) user asset = 0) ∨
        p.tier = .flex ∧ ∀ t, net rule D w ds (tierToScVal t) user asset = 0) := by
  have hw : D.Wired (run (World.exec rule D.router) w ds) := Deployment.run_wired hf.wired hg hds
  obtain ⟨answers, hanswers, hchoose⟩ := position_eq_some.mp h
  have hanswer : ∀ tier, (answers tier).tier = tier ∧
      (answers tier).principal = bigIntToString (net rule D w ds (tierToScVal tier) user asset) := by
    intro tier
    have htier := hanswers tier
    simp only [queryTierPosition, Traced.bind_result_eq_ok, Traced.ofExcept_result] at htier
    obtain ⟨account, haccount, token, htoken, raw, hraw, hpure⟩ := htier
    obtain ⟨env, hposition⟩ := hserves tier account token raw haccount htoken hraw
    have hprincipal := principal_of_position hw hposition
    rw [Deployment.run_balanceAt hf.wired hg hds, hf.balanceAt, zero_add] at hprincipal
    rw [← Except.ok.inj hpure, ← hprincipal]
    exact ⟨rfl, rfl⟩
  rcases choose_map (fun tier => (hanswer tier).2) hchoose with
    ⟨before, tier, after, hsplit, rfl, hne, hbefore⟩ | ⟨rfl, hzero⟩
  · rw [(hanswer tier).1, (hanswer tier).2, bigInt_bigIntToString]
    exact ⟨rfl, .inl ⟨before, after, hsplit, hne, hbefore⟩⟩
  · rw [(hanswer .flex).1, (hanswer .flex).2, bigInt_bigIntToString]
    exact ⟨rfl, .inr ⟨rfl, hzero⟩⟩

end Served

open Deployment (flow net exits harness harnessWorld usdc twoDepositors depositsRun payoutsRule signed)

/-- A server that shows account 7's positions after the two deposits, a wallet that signs whatever it is asked to
and a network that accepts it. -/
def harnessOutside : Outside Unit (Option Tier) RawPosition (List (Option Tier)) where
  getAccount _ _ := .ok ()
  build _ _ params _ := .ok params.args
  simulateTransaction
    | [_, some .l3, _], _ => .ok (.success ⟨500_000_000, 525_000_000, 777_601⟩)
    | _, _ => .ok (.success ⟨0, 0, 0⟩)
  assembleTransaction tx _ := .ok tx
  toXDR _ := .ok "AAAA"
  signTransaction _ _ := .ok "AAAB"
  fromXDR _ _ := .ok [none, some .l3, none, none]
  hash _ := .ok "ab12"
  sendTransaction _ := .ok ⟨.pending, "ab12", none⟩

def harnessConversions : Conversions RawPosition (Option Tier) where
  addressToScVal _ := .ok none
  tierToScVal tier := some tier
  amountToScVal _ := .ok none
  result simulation := some simulation

def harnessOptions : YieldLadderOptions := ⟨⟨.testnet, "GA7", none⟩, "CROUTER", "CUSDC"⟩

theorem harness_serves (address : String) :
    Serves harnessOutside harnessConversions harnessOptions harness twoDepositors address (.account 7) usdc := by
  intro tier account token raw haccount htoken hraw
  cases haccount
  cases htoken
  refine ⟨⟨[], none, 2⟩, ?_⟩
  cases tier with
  | l3 =>
    obtain rfl : ⟨500_000_000, 525_000_000, 777_601⟩ = raw := Except.ok.inj hraw
    rfl
  | _ =>
    obtain rfl : ⟨0, 0, 0⟩ = raw := Except.ok.inj hraw
    rfl

/-- `position` of account 7 shows its L3 position. -/
theorem position_shown_harness : ∃ p, position harnessOutside harnessConversions harnessOptions "GA7" = some p ∧
    bigInt p.principal =
      some (net payoutsRule harness harnessWorld depositsRun (tierToScVal p.tier) (.account 7) usdc) := by
  obtain ⟨p, hp⟩ : ∃ p, position harnessOutside harnessConversions harnessOptions "GA7" = some p := ⟨_, rfl⟩
  refine ⟨p, hp, ?_⟩
  exact (position_shown Deployment.harness_fresh (Deployment.guards_payouts fun _ => true)
    Deployment.admits_depositsRun (harness_serves _) hp).1

end YieldLadder.Sdk
