import YieldLadder.Router.Exits
import YieldLadder.Router.Exports
import YieldLadder.Sdk.ContractErrors
import YieldLadder.Sdk.Positions

/-! # What the SDK asks for and what the router is asked

The SDK writes the arguments of a call as contract values, which the host hands to the export. As long as
an amount is an `i128`, what is signed is read back as the call that was meant; nothing in the client keeps
a deposit below that.
-/
namespace YieldLadder.Sdk
open Foundation Foundation.EcmaScript
open Deployment (net)

variable {A S T : Type}

/-- What the Stellar SDK writes: a tier as the vector of its symbol, and an amount in range as itself. -/
structure Writes (convert : Conversions S ScVal) : Prop where
  tier : ∀ tier, convert.tierToScVal tier = ScVal.ofTier.encode (tierToScVal tier)
  amount : ∀ x, InI128 x → convert.amountToScVal x = .ok (.i128 x)

/-- It reads a position as its three numbers; `retval` is the value that a simulation came with. -/
def Reads (convert : Conversions S ScVal) (retval : S → Option ScVal) : Prop :=
  ∀ simulation principal shares lockUntil,
    retval simulation = some (ScVal.ofValue (.position principal shares lockUntil)) →
      convert.result simulation = some ⟨principal, shares, lockUntil⟩

def refused : Option YieldLadderError → Thrown
  | some error => .ladder error
  | none => .error "SyntaxError"

/-- The `deposit` of the client, where no call with its key is in flight. -/
def clientDeposit (outside : Outside A V S T) (convert : Conversions S V) (options : YieldLadderOptions)
    (amount : List ℕ) (tier : Tier) : Traced (Event A S T) Thrown String := do
  let stroops ← .ofExcept ((deposit amount tier).mapError refused)
  let user ← .ofExcept (convert.addressToScVal options.pipeline.publicKey)
  let asset ← .ofExcept (convert.addressToScVal options.assetContractId)
  let value ← .ofExcept (convert.amountToScVal stroops)
  doInvoke outside options.pipeline
    ⟨options.vaultRouterContractId, "deposit", [user, convert.tierToScVal tier, asset, value]⟩

variable {outside : Outside A ScVal S T} {convert : Conversions S ScVal} {retval : S → Option ScVal}
variable {options : YieldLadderOptions} {D : Deployment} {rule : TokenRule} {w : World} {user asset : Address}
variable {tier : Tier} {tx : T} {text : String} {x : ℤ}

theorem decode_args (call : VaultRouter.Call) : VaultRouter.decode (method call) call.args = some call := by
  cases call with
  | initialise admin governance guardian vaults initialAssets =>
    have hread := VaultRouter.decode_encode (m := "initialize") (c := VaultRouter.initialiseArgs) rfl
      (admin, governance, guardian, vaults .flex, vaults .l3, vaults .l6, vaults .l12, initialAssets, ())
    rw [VaultRouter.vaultsOf_eta] at hread
    exact hread
  | pause => rfl
  | unpause => rfl
  | isPaused => rfl
  | deposit user tier asset amount =>
    exact VaultRouter.decode_encode (m := "deposit") rfl (user, tier, asset, amount, ())
  | withdraw user tier asset amount =>
    exact VaultRouter.decode_encode (m := "withdraw") rfl (user, tier, asset, amount, ())
  | earlyExit user tier asset amount =>
    exact VaultRouter.decode_encode (m := "early_exit") rfl (user, tier, asset, amount, ())
  | setMaxTvl tier newCap => exact VaultRouter.decode_encode (m := "set_max_tvl") rfl (tier, newCap, ())
  | vaultCapacity tier => exact VaultRouter.decode_encode (m := "vault_capacity") rfl (tier, ())
  | relock user tier asset => exact VaultRouter.decode_encode (m := "relock") rfl (user, tier, asset, ())
  | addDepositAsset admin asset =>
    exact VaultRouter.decode_encode (m := "add_deposit_asset") rfl (admin, asset, ())
  | removeDepositAsset admin asset =>
    exact VaultRouter.decode_encode (m := "remove_deposit_asset") rfl (admin, asset, ())
  | isDepositAssetAllowed asset =>
    exact VaultRouter.decode_encode (m := "is_deposit_asset_allowed") rfl (asset, ())
  | position user tier asset => exact VaultRouter.decode_encode (m := "position") rfl (user, tier, asset, ())
  | getAdmin => rfl
  | getGuardian => rfl
  | getVault tier => exact VaultRouter.decode_encode (m := "get_vault") rfl (tier, ())

/-- The server simulates what the router does in the world `w` with the call that the arguments are read as. -/
def Simulates (outside : Outside A ScVal S T) (retval : S → Option ScVal) (options : YieldLadderOptions)
    (D : Deployment) (rule : TokenRule) (w : World) : Prop :=
  ∀ account params timeoutSeconds tx attempt simulation, params.contractId = options.vaultRouterContractId →
    outside.build account options.pipeline.network params timeoutSeconds = .ok tx →
    outside.simulateTransaction tx attempt = .ok (.success simulation) →
    ∃ env call r, VaultRouter.decode params.method params.args = some call ∧
      VaultRouter.step rule D.router env w call = .ok r ∧ retval simulation = some (ScVal.ofValue r.2.value)

theorem simulateRead_eq_ok {R : Type} {config : TransactionPipelineConfig} {V : Type} {outside : Outside A V S T}
    {result : S → Option R} {params : InvokeContractParams V} {raw : R}
    (h : (simulateRead outside config result params).result = .ok raw) : ∃ account tx attempt simulation,
      outside.build account config.network params
        (config.transactionTimeoutSeconds.getD DEFAULT_TX_TIMEOUT_SECONDS) = .ok tx ∧
      outside.simulateTransaction tx attempt = .ok (.success simulation) ∧ result simulation = some raw := by
  simp only [simulateRead, Traced.bind_result_eq_ok, buildTransaction_eq_ok, simulateWithRetry_eq_ok,
    Traced.ofExcept_result, expect_eq_ok] at h
  obtain ⟨tx, ⟨account, _, hbuild⟩, sim, ⟨attempt, _, hsim, _⟩, _, _, hresult⟩ := h
  cases sim with
  | error error => cases hresult
  | success simulation => exact ⟨account, tx, attempt, simulation, hbuild, hsim, hresult⟩

/-- Such a server shows the positions of the world it simulates in. -/
theorem serves_of_simulates (hwrites : Writes convert) (hreads : Reads convert retval) (hw : D.Wired w)
    (hs : Simulates outside retval options D rule w) (huser : convert.addressToScVal text = .ok (.address user))
    (hasset : convert.addressToScVal options.assetContractId = .ok (.address asset)) :
    Serves outside convert options D w text user asset := by
  intro tier account token raw haccount htoken hraw
  obtain rfl := Except.ok.inj (huser.symm.trans haccount)
  obtain rfl := Except.ok.inj (hasset.symm.trans htoken)
  obtain ⟨source, tx, attempt, simulation, hbuild, hsim, hresult⟩ := simulateRead_eq_ok hraw
  obtain ⟨env, call, r, hcall, hstep, hretval⟩ := hs _ _ _ _ _ _ rfl hbuild hsim
  have hmeant : VaultRouter.decode "position" _ = some (.position user (tierToScVal tier) asset) :=
    decode_args (.position user (tierToScVal tier) asset)
  rw [hwrites.tier] at hcall
  obtain rfl := Option.some.inj (hmeant.symm.trans hcall)
  simp only [VaultRouter.step, bind_eq_ok, pure_eq_ok] at hstep
  obtain ⟨value, hposition, rfl⟩ := hstep
  obtain ⟨v, hv⟩ := hw.vault (tierToScVal tier)
  obtain rfl := Except.ok.inj ((Deployment.position_eq hw hv).symm.trans hposition)
  obtain rfl := Option.some.inj ((hreads _ _ _ _ hretval).symm.trans hresult)
  exact ⟨env, hposition⟩

theorem deposit_eq_ok {amount : List ℕ} :
    deposit amount tier = .ok x ↔ toStroops amount = some x ∧ TIER_MIN_DEPOSIT tier ≤ x := by
  unfold deposit
  cases toStroops amount with
  | none => simp [throw, throwThe, MonadExceptOf.throw]
  | some stroops =>
    dsimp only
    by_cases hlt : stroops < TIER_MIN_DEPOSIT tier
    · rw [if_pos hlt]
      refine iff_of_false (fun h => by cases h) ?_
      rintro ⟨heq, hle⟩
      exact absurd (Option.some.inj heq ▸ hle) (not_le.mpr hlt)
    · rw [if_neg hlt]
      constructor
      · intro h
        obtain rfl : stroops = x := Except.ok.inj h
        exact ⟨rfl, not_lt.mp hlt⟩
      · rintro ⟨heq, _⟩
        exact congrArg Except.ok (Option.some.inj heq)

/-- What a deposit sends asks for the stroops of the text, which are at least the minimum. -/
theorem deposit_sent {convert : Conversions S ScVal} {amount : List ℕ}
    {answer : Except Thrown SendTransactionResponse}
    (h : .sendTransaction tx answer ∈ (clientDeposit outside convert options amount tier).trace) :
    ∃ x user asset value, toStroops amount = some x ∧ TIER_MIN_DEPOSIT tier ≤ x ∧
      convert.addressToScVal options.pipeline.publicKey = .ok user ∧
      convert.addressToScVal options.assetContractId = .ok asset ∧ convert.amountToScVal x = .ok value ∧
      Signed outside options.pipeline
        ⟨options.vaultRouterContractId, "deposit", [user, convert.tierToScVal tier, asset, value]⟩ tx := by
  obtain ⟨x, hx, hrest⟩ := Traced.mem_ofExcept_bind h
  obtain ⟨user, huser, hrest⟩ := Traced.mem_ofExcept_bind hrest
  obtain ⟨asset, hasset, hrest⟩ := Traced.mem_ofExcept_bind hrest
  obtain ⟨value, hvalue, hinvoke⟩ := Traced.mem_ofExcept_bind hrest
  rw [mapError_eq_ok, deposit_eq_ok] at hx
  exact ⟨x, user, asset, value, hx.1, hx.2, huser, hasset, hvalue, signed_of_sent hinvoke⟩

/-- What an exit sends is read as the exit of the account's whole position in the world that was simulated: a
position is an `i128`. -/
theorem exit_meant {cs : List World.Invocation} {name : String} {call : ℤ → VaultRouter.Call}
    {answer : Except Thrown SendTransactionResponse} (hwrites : Writes convert) (hreads : Reads convert retval)
    (hf : D.Fresh w) (hg : D.Guards rule) (hcs : ∀ c ∈ cs, D.Admits c)
    (hserver : Simulates outside retval options D rule (run (World.exec rule D.router) w cs))
    (huser : convert.addressToScVal options.pipeline.publicKey = .ok (.address user))
    (hasset : convert.addressToScVal options.assetContractId = .ok (.address asset))
    (hcall : ∀ x, VaultRouter.decode name
      [.address user, ScVal.ofTier.encode (tierToScVal tier), .address asset, .i128 x] = some (call x))
    (h : .sendTransaction tx answer ∈ (exit outside convert options name tier).trace) :
    ∃ args, Signed outside options.pipeline ⟨options.vaultRouterContractId, name, args⟩ tx ∧
      VaultRouter.decode name args = some (call (net rule D w cs (tierToScVal tier) user asset)) := by
  have hw : D.Wired (run (World.exec rule D.router) w cs) := Deployment.run_wired hf.wired hg hcs
  have hserves := serves_of_simulates hwrites hreads hw hserver huser hasset
  obtain ⟨account, token, raw, value, haccount, htoken, hraw, hvalue, hsigned⟩ := exit_sent h
  obtain ⟨env, hposition⟩ := hserves tier account token raw haccount htoken hraw
  have hprincipal := principal_of_position hw hposition
  have hrange : InI128 raw.principal := by
    rw [hprincipal]
    exact Deployment.run_balance_inRange hf hg hcs _ _ _
  obtain rfl := Except.ok.inj (huser.symm.trans haccount)
  obtain rfl := Except.ok.inj (hasset.symm.trans htoken)
  obtain rfl := Except.ok.inj ((hwrites.amount _ hrange).symm.trans hvalue)
  rw [Deployment.run_balanceAt hf.wired hg hcs, hf.balanceAt, zero_add] at hprincipal
  rw [hwrites.tier] at hsigned
  refine ⟨_, hsigned, ?_⟩
  rw [← hprincipal]
  exact hcall raw.principal

/-- Whatever the client has had signed and sent, the router reads it as the call that was meant: a deposit of the
stroops of the text as long as they are an `i128`, or an exit of exactly what the account's calls add up to in the
world that was simulated. -/
theorem client_meant {cs : List World.Invocation} {answer : Except Thrown SendTransactionResponse}
    (hwrites : Writes convert) (hreads : Reads convert retval) (hf : D.Fresh w) (hg : D.Guards rule)
    (hcs : ∀ c ∈ cs, D.Admits c)
    (hserver : Simulates outside retval options D rule (run (World.exec rule D.router) w cs))
    (huser : convert.addressToScVal options.pipeline.publicKey = .ok (.address user))
    (hasset : convert.addressToScVal options.assetContractId = .ok (.address asset)) (tier : Tier) :
    (∀ amount, .sendTransaction tx answer ∈ (clientDeposit outside convert options amount tier).trace →
      ∃ args x, Signed outside options.pipeline ⟨options.vaultRouterContractId, "deposit", args⟩ tx ∧
        toStroops amount = some x ∧ TIER_MIN_DEPOSIT tier ≤ x ∧
        (InI128 x →
          VaultRouter.decode "deposit" args = some (.deposit user (tierToScVal tier) asset x))) ∧
    (.sendTransaction tx answer ∈ (withdraw outside convert options tier).trace →
      ∃ args, Signed outside options.pipeline ⟨options.vaultRouterContractId, "withdraw", args⟩ tx ∧
        VaultRouter.decode "withdraw" args = some (.withdraw user (tierToScVal tier) asset
          (net rule D w cs (tierToScVal tier) user asset))) ∧
    (.sendTransaction tx answer ∈ (earlyExit outside convert options tier).trace →
      ∃ args, Signed outside options.pipeline ⟨options.vaultRouterContractId, "early_exit", args⟩ tx ∧
        VaultRouter.decode "early_exit" args = some (.earlyExit user (tierToScVal tier) asset
          (net rule D w cs (tierToScVal tier) user asset))) := by
  refine ⟨fun amount h => ?_, fun h => ?_, fun h => ?_⟩
  · obtain ⟨x, account, token, value, hx, hmin, haccount, htoken, hvalue, hsigned⟩ := deposit_sent h
    obtain rfl := Except.ok.inj (huser.symm.trans haccount)
    obtain rfl := Except.ok.inj (hasset.symm.trans htoken)
    rw [hwrites.tier] at hsigned
    refine ⟨_, x, hsigned, hx, hmin, fun hrange => ?_⟩
    obtain rfl := Except.ok.inj ((hwrites.amount x hrange).symm.trans hvalue)
    exact decode_args (.deposit user (tierToScVal tier) asset x)
  · exact exit_meant hwrites hreads hf hg hcs hserver huser hasset
      (fun x => decode_args (.withdraw user (tierToScVal tier) asset x)) h
  · exact exit_meant hwrites hreads hf hg hcs hserver huser hasset
      (fun x => decode_args (.earlyExit user (tierToScVal tier) asset x)) h

open Deployment (harness harnessWorld usdc twoDepositors depositsRun payoutsRule)

def wireExit : InvokeContractParams ScVal :=
  ⟨"CROUTER", "early_exit", [.address (.account 7), ScVal.ofTier.encode .l3, .address usdc, .i128 500_000_000]⟩

/-- A server that simulates each call as if account 7 had signed it, after the two deposits, and a wallet that is
handed the early exit. -/
def wireOutside : Outside Unit ScVal ScVal (InvokeContractParams ScVal) where
  getAccount _ _ := .ok ()
  build _ _ params _ := .ok params
  simulateTransaction params _ :=
    match VaultRouter.decode params.method params.args with
    | none => .ok (.error "HostError: Error(Value, UnexpectedType)")
    | some call =>
      match VaultRouter.step payoutsRule harness.router ⟨[7], none, 2⟩ twoDepositors call with
      | .ok r => .ok (.success (ScVal.ofValue r.2.value))
      | .error _ => .ok (.error "HostError: Error(WasmVm, InvalidAction)")
  assembleTransaction tx _ := .ok tx
  toXDR _ := .ok "AAAA"
  signTransaction _ _ := .ok "AAAB"
  fromXDR _ _ := .ok wireExit
  hash _ := .ok "ab12"
  sendTransaction _ := .ok ⟨.pending, "ab12", none⟩

/-- What the client takes a decoded result for. -/
def toRawPosition (v : ScVal) : Option RawPosition := do
  let principal ← v.field "principal"
  let shares ← v.field "shares"
  let lockUntil ← v.field "lock_until"
  match principal, shares, lockUntil with
  | .i128 principal, .i128 shares, .u32 lockUntil => some ⟨principal, shares, lockUntil⟩
  | _, _, _ => none

/-- An amount is cut to the bits of an `i128`. -/
def wireConversions : Conversions ScVal ScVal where
  addressToScVal text :=
    if text = "GA7" then .ok (.address (.account 7))
    else if text = "CUSDC" then .ok (.address usdc)
    else .error (.error ("Unsupported address type: " ++ text))
  tierToScVal tier := ScVal.ofTier.encode (tierToScVal tier)
  amountToScVal x := .ok (.i128 (x.bmod (2 ^ 128)))
  result := toRawPosition

theorem wire_writes : Writes wireConversions where
  tier _ := rfl
  amount x hx := by
    unfold InI128 i128Min i128Max at hx
    have hself : x.bmod (2 ^ 128) = x := Int.bmod_eq_of_le (by norm_num; omega) (by norm_num; omega)
    exact congrArg (fun y => Except.ok (ScVal.i128 y)) hself

theorem wire_reads : Reads wireConversions some := by
  intro simulation principal shares lockUntil h
  obtain rfl := Option.some.inj h
  simp [wireConversions, toRawPosition, ScVal.ofValue, ScVal.field]

theorem wire_simulates : Simulates wireOutside some harnessOptions harness payoutsRule twoDepositors := by
  intro account params timeoutSeconds tx attempt simulation _ hbuild hsim
  obtain rfl : params = tx := Except.ok.inj hbuild
  unfold wireOutside at hsim
  dsimp only at hsim
  cases hcall : VaultRouter.decode params.method params.args with
  | none =>
    rw [hcall] at hsim
    cases hsim
  | some call =>
    rw [hcall] at hsim
    dsimp only at hsim
    cases hstep : VaultRouter.step payoutsRule harness.router ⟨[7], none, 2⟩ twoDepositors call with
    | error fault =>
      rw [hstep] at hsim
      cases hsim
    | ok r =>
      rw [hstep] at hsim
      obtain rfl : ScVal.ofValue r.2.value = simulation := by injection hsim with hsim; injection hsim
      exact ⟨_, call, r, rfl, hstep, rfl⟩

theorem wire_sent : .sendTransaction wireExit (.ok ⟨.pending, "ab12", none⟩) ∈
    (earlyExit wireOutside wireConversions harnessOptions .l3).trace := by
  have htrace : (exit wireOutside wireConversions harnessOptions "early_exit" .l3).trace = _ :=
    (exit_of_read rfl rfl rfl rfl).2
  rw [earlyExit, htrace]
  apply List.mem_append_right
  apply (sendTransaction_mem_iff rfl).mpr
  exact ⟨rfl, rfl⟩

theorem client_meant_wire : ∃ args,
    Signed wireOutside harnessOptions.pipeline ⟨"CROUTER", "early_exit", args⟩ wireExit ∧
      VaultRouter.decode "early_exit" args = some (.earlyExit (.account 7) .l3 usdc
        (net payoutsRule harness harnessWorld depositsRun .l3 (.account 7) usdc)) :=
  (client_meant wire_writes wire_reads Deployment.harness_fresh (Deployment.guards_payouts fun _ => true)
    Deployment.admits_depositsRun wire_simulates rfl rfl .l3).2.2 wire_sent

end YieldLadder.Sdk
